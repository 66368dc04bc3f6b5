import ContractDrift.Contract.Decode
import ContractDrift.Contract.Encode
import ContractDrift.Proofs.RecordSlots
import ContractDrift.Proofs.TypeText

/-!
# The written form of a contract is read back

A contract that was read from a JSON value is written to a value that is read as the same contract.
The two values may differ: keys that no slot has are gone, lists of slots have become objects, other
spellings of types and platforms have become the one that is written, and what stands for a default
is left out.  Nothing of this is lost, part by part and slot by slot.

* `Field.read?_eq` — how a field is read, without the recursion that shows that reading ends.
* `QualityRule.roundTrips`, `Field.read?_toJson`, `Model.roundTrips`, … — one law for each part.
* **`Contract.ofJson?_toJson`** — the law for contracts.
-/

namespace ContractDrift

open Json (RoundTrips roundTrips_text roundTrips_texts roundTrips_bool roundTrips_count
  roundTrips_real roundTrips_members roundTrips_parameters roundTrips_any record)

/-! ## Quality rules -/

theorem Bound.roundTrips : RoundTrips Bound.ofJson? Bound.toJson where
  ne_null _ _ _ := nofun
  again {v b} hv h := by
    simp only [ofJson?, Option.bind_eq_bind, Option.bind_eq_some_iff, Option.some.injEq] at h ⊢
    obtain ⟨w, hw, value, hvalue, inclusive, hinclusive, rfl⟩ := h
    have hs := hv.asRecord? hw
    refine ⟨toJson _, rfl, value, roundTrips_real.required hs hvalue ?_, inclusive,
      roundTrips_bool.required hs hinclusive ?_, rfl⟩ <;> simp [toJson]

theorem Threshold.roundTrips : RoundTrips Threshold.ofJson? Threshold.toJson where
  ne_null _ _ _ := nofun
  again {v t} hv h := by
    simp only [ofJson?, Option.bind_eq_bind, Option.bind_eq_some_iff, Option.some.injEq] at h ⊢
    obtain ⟨w, hw, lower, hlower, upper, hupper, rfl⟩ := h
    have hs := hv.asRecord? hw
    refine ⟨toJson _, rfl, lower, Bound.roundTrips.optional hs hlower ?_, upper,
      Bound.roundTrips.optional hs hupper ?_, rfl⟩ <;> simp [toJson]

/-- A threshold is left out if it has no ends. -/
lemma Threshold.isUnbounded_iff {t : Threshold} : t.isUnbounded = true ↔ t = {} := by
  obtain ⟨lower, upper⟩ := t
  simp [isUnbounded]

lemma QualityKind.roundTrips (held : Bool) :
    RoundTrips (QualityKind.read? held) fun k => .text k.name :=
  .of_forall (fun k => by cases k <;> rfl) fun _ => nofun

lemma Parameters.isEmpty_iff {p : Parameters} : p.isEmpty = true ↔ p = .empty := by
  obtain ⟨l, h⟩ := p
  cases l <;> simp [Entries.isEmpty, Entries.empty]

theorem QualityRule.roundTrips (held : Bool) :
    RoundTrips (QualityRule.read? held) QualityRule.toJson where
  ne_null _ _ _ := nofun
  again {v r} hv h := by
    simp only [read?, Option.bind_eq_bind, Option.bind_eq_some_iff, Option.some.injEq] at h ⊢
    obtain ⟨w, hw, name, hname, kind, hkind, threshold, hthreshold, description, hdescription,
      parameters, hparameters, rfl⟩ := h
    have hs := hv.asRecord? hw
    refine ⟨toJson _, rfl, name, roundTrips_text.optional hs hname ?_,
      kind, (QualityKind.roundTrips held).required hs hkind ?_,
      threshold, Threshold.roundTrips.defaulted_unless hs Threshold.isUnbounded_iff hthreshold ?_,
      description, roundTrips_text.optional hs hdescription ?_,
      parameters, roundTrips_parameters.defaulted_unless hs Parameters.isEmpty_iff hparameters ?_,
      rfl⟩ <;> simp [toJson]

/-! ## Servers -/

lemma ServerType.roundTrips : RoundTrips ServerType.ofJson? fun t => .text t.name where
  ne_null _ _ _ := nofun
  again _ ht := by
    obtain ⟨tag, _, rfl⟩ := Option.map_eq_some_iff.1 ht
    exact congrArg some (ServerType.parse_name tag)

theorem Server.roundTrips : RoundTrips Server.ofJson? Server.toJson where
  ne_null _ _ _ := nofun
  again {v s} hv h := by
    simp only [ofJson?, Option.bind_eq_bind, Option.bind_eq_some_iff, Option.some.injEq] at h ⊢
    obtain ⟨w, hw, name, hname, type, htype, description, hdescription, parameters, hparameters,
      rfl⟩ := h
    have hs := hv.asRecord? hw
    refine ⟨toJson _, rfl, name, roundTrips_text.required hs hname ?_,
      type, ServerType.roundTrips.required hs htype ?_,
      description, roundTrips_text.optional hs hdescription ?_,
      parameters, roundTrips_parameters.defaulted_unless hs Parameters.isEmpty_iff hparameters ?_,
      rfl⟩ <;> simp [toJson]

/-! ## Fields -/

lemma DataType.roundTrips : RoundTrips DataType.ofJson? fun t => .text t.text where
  ne_null _ _ _ := nofun
  again _ ht := by
    obtain ⟨_, _, ht⟩ := Option.bind_eq_some_iff.1 ht
    exact DataType.parse?_text ht

lemma Container.roundTrips : RoundTrips Container.ofJson? fun k => .text k.name :=
  .of_forall (fun k => by cases k <;> rfl) fun _ => nofun

/-- Constraints are left out if there are none. -/
lemma Constraints.isEmpty_iff {c : Constraints} : c.isEmpty = true ↔ c = {} := by
  obtain ⟨_, _, _, _, _, _, _, _, _⟩ := c
  simp [isEmpty, and_assoc]

theorem Constraints.roundTrips : RoundTrips Constraints.ofJson? Constraints.toJson where
  ne_null _ _ _ := nofun
  again {v c} hv h := by
    simp only [ofJson?, Option.bind_eq_bind, Option.bind_eq_some_iff, Option.some.injEq] at h ⊢
    obtain ⟨w, hw, minLength, hminLength, maxLength, hmaxLength, pattern, hpattern, format, hformat,
      minimum, hminimum, maximum, hmaximum, exclusiveMinimum, hexclusiveMinimum, exclusiveMaximum,
      hexclusiveMaximum, allowed, hallowed, rfl⟩ := h
    have hs := hv.asRecord? hw
    refine ⟨toJson _, rfl,
      minLength, roundTrips_count.optional hs hminLength ?_,
      maxLength, roundTrips_count.optional hs hmaxLength ?_,
      pattern, roundTrips_text.optional hs hpattern ?_,
      format, roundTrips_text.optional hs hformat ?_,
      minimum, roundTrips_real.optional hs hminimum ?_,
      maximum, roundTrips_real.optional hs hmaximum ?_,
      exclusiveMinimum, roundTrips_real.optional hs hexclusiveMinimum ?_,
      exclusiveMaximum, roundTrips_real.optional hs hexclusiveMaximum ?_,
      allowed, roundTrips_members.optional hs hallowed ?_, rfl⟩ <;> simp [toJson]

theorem FieldMetadata.roundTrips : RoundTrips FieldMetadata.ofJson? FieldMetadata.toJson where
  ne_null _ _ _ := nofun
  again {v m} hv h := by
    simp only [ofJson?, Option.bind_eq_bind, Option.bind_eq_some_iff, Option.some.injEq] at h ⊢
    obtain ⟨w, hw, tags, htags, pii, hpii, classification, hclassification, example?, hexample,
      rfl⟩ := h
    have hs := hv.asRecord? hw
    refine ⟨toJson _, rfl,
      tags, roundTrips_texts.defaulted_unless hs List.isEmpty_iff htags ?_,
      pii, roundTrips_bool.optional hs hpii ?_,
      classification, roundTrips_text.optional hs hclassification ?_,
      example?, roundTrips_any.optional hs hexample ?_, rfl⟩ <;> simp [toJson]

namespace FieldAttributes

/-- The keys of the slots that do not depend on the shape of a field. -/
def slotNames : List String :=
  ["name", "required", "unique", "primary", "references", "default", "title", "description",
    "quality", "metadata"]

/-- The slots of the shape of a field are in no one's way. -/
lemma read?_record {held : Bool} {v : Json} {a : FieldAttributes} (hv : v.IsStandard)
    (h : read? held v = some a) {shape : List (List (String × Json))}
    (hshape : ∀ key ∈ slotNames, (record shape).get? key = none) :
    read? held (record (a.slots ++ shape)) = some a := by
  simp only [slotNames, List.forall_mem_cons] at hshape
  simp only [read?, Option.bind_eq_bind, Option.bind_eq_some_iff, Option.some.injEq] at h ⊢
  obtain ⟨name, hname, required, hrequired, unique, hunique, primary, hprimary, references,
    hreferences, default?, hdefault, title, htitle, description, hdescription, quality, hquality,
    metadata, hmetadata, rfl⟩ := h
  have nothing : FieldMetadata.ofJson? (FieldMetadata.toJson {}) = some {} := rfl
  refine ⟨name, roundTrips_text.required hv hname ?_,
    required, roundTrips_bool.defaulted hv rfl hrequired ?_,
    unique, roundTrips_bool.defaulted hv rfl hunique ?_,
    primary, roundTrips_bool.defaulted hv rfl hprimary ?_,
    references, roundTrips_text.optional hv hreferences ?_,
    default?, roundTrips_any.optional hv hdefault ?_,
    title, roundTrips_text.optional hv htitle ?_,
    description, roundTrips_text.optional hv hdescription ?_,
    quality, (QualityRule.roundTrips held).list.defaulted_unless hv List.isEmpty_iff hquality ?_,
    metadata, FieldMetadata.roundTrips.defaulted hv nothing hmetadata ?_, rfl⟩ <;>
  simp [hshape, slots]

end FieldAttributes

namespace Field

lemma roundTrips_isNested :
    RoundTrips isNested? fun nested => .text (if nested then "nested" else "scalar") :=
  .of_forall (fun nested => by cases nested <;> rfl) fun _ => nofun

/-- **How a field is read.**  The fields inside are a slot as others are. -/
lemma read?_eq (held : Bool) (v : Json) : read? held v = (do
    let attributes ← FieldAttributes.read? held v
    match ← v.required "shape" isNested? with
    | false =>
      let type ← v.required "type" DataType.ofJson?
      let constraints ← v.defaulted "constraints" {} Constraints.ofJson?
      some (.scalar attributes type constraints)
    | true =>
      let container ← v.required "container" Container.ofJson?
      let fields ← v.defaulted "fields" [] (readFields? true)
      some (.nested attributes container fields)) := by
  rw [read?]
  cases v with
  | object entries =>
      refine congrArg _ (funext fun attributes => congrArg _ (funext fun nested => ?_))
      cases nested with
      | false => rfl
      | true =>
          refine congrArg (Option.bind _) (funext fun container => ?_)
          simp only [Json.defaulted, Json.get?]
          split <;> rename_i hfields <;> simp [hfields, readFields?]
  | _ => rfl

lemma read?_eq_scalar_iff {held : Bool} {v : Json} {a : FieldAttributes} {t : DataType}
    {c : Constraints} : read? held v = some (.scalar a t c) ↔
      FieldAttributes.read? held v = some a ∧ v.required "shape" isNested? = some false ∧
        v.required "type" DataType.ofJson? = some t ∧
        v.defaulted "constraints" {} Constraints.ofJson? = some c := by
  rw [read?_eq]
  cases v.required "shape" isNested? with
  | none => simp
  | some nested => cases nested <;> simp [Option.bind_eq_some_iff]

lemma read?_eq_nested_iff {held : Bool} {v : Json} {a : FieldAttributes} {k : Container}
    {fs : List Field} : read? held v = some (.nested a k fs) ↔
      FieldAttributes.read? held v = some a ∧ v.required "shape" isNested? = some true ∧
        v.required "container" Container.ofJson? = some k ∧
        v.defaulted "fields" [] (readFields? true) = some fs := by
  rw [read?_eq]
  cases v.required "shape" isNested? with
  | none => simp
  | some nested => cases nested <;> simp [Option.bind_eq_some_iff]

lemma readList?_cons_iff {held : Bool} {items : List Json} {f : Field} {fs : List Field} :
    readList? held items = some (f :: fs) ↔ ∃ v rest, items = v :: rest ∧
      read? held v = some f ∧ readList? held rest = some fs := by
  cases items with
  | nil => simp [readList?]
  | cons v rest => simp [readList?, Option.bind_eq_some_iff]

/-- The fields inside come from a list of standard values, which is empty if it is left out. -/
lemma exists_items {held : Bool} {v : Json} {fs : List Field} (hv : v.IsStandard)
    (h : v.defaulted "fields" [] (readFields? held) = some fs) :
    ∃ items : List Json, (∀ u ∈ items, u.IsStandard) ∧ readList? held items = some fs := by
  unfold Json.defaulted at h
  split at h
  · cases h
    exact ⟨[], by simp, by rw [readList?]⟩
  · rename_i w hw
    cases w with
    | list items => exact ⟨items, Json.isStandard_list_iff.1 (hv.get? hw), h⟩
    | _ => cases h

mutual

/-- A field is read back, with all fields inside. -/
theorem read?_toJson {held : Bool} {v : Json} : ∀ {f : Field}, v.IsStandard →
    read? held v = some f → read? held f.toJson = some f
  | .scalar a t c, hv, h => by
      obtain ⟨ha, hshape, htype, hconstraints⟩ := read?_eq_scalar_iff.1 h
      rw [toJson]
      refine read?_eq_scalar_iff.2 ⟨FieldAttributes.read?_record hv ha ?_,
        roundTrips_isNested.required hv hshape ?_, DataType.roundTrips.required hv htype ?_,
        Constraints.roundTrips.defaulted_unless hv Constraints.isEmpty_iff hconstraints ?_⟩ <;>
      simp [FieldAttributes.slots, FieldAttributes.slotNames]
  | .nested a k fs, hv, h => by
      obtain ⟨ha, hshape, hcontainer, hfields⟩ := read?_eq_nested_iff.1 h
      rw [toJson]
      obtain ⟨items, hitems, hfs⟩ := exists_items hv hfields
      have inside : readList? true (listToJson fs) = some fs := readList?_listToJson hitems hfs
      refine read?_eq_nested_iff.2 ⟨FieldAttributes.read?_record hv ha ?_,
        roundTrips_isNested.required hv hshape ?_, Container.roundTrips.required hv hcontainer ?_,
        ?_⟩ <;>
      simp [FieldAttributes.slots, FieldAttributes.slotNames, Json.defaulted, readFields?, inside]

theorem readList?_listToJson {held : Bool} : ∀ {fs : List Field} {items : List Json},
    (∀ v ∈ items, v.IsStandard) → readList? held items = some fs →
      readList? held (listToJson fs) = some fs
  | [], _, _, _ => by rw [listToJson, readList?]
  | f :: fs, items, hitems, h => by
      obtain ⟨v, rest, rfl, hf, hfs⟩ := readList?_cons_iff.1 h
      rw [List.forall_mem_cons] at hitems
      exact readList?_cons_iff.2 ⟨_, _, by rw [listToJson], read?_toJson hitems.1 hf,
        readList?_listToJson hitems.2 hfs⟩

end

end Field

/-! ## Models -/

lemma Field.roundTrips_list : RoundTrips asFields? fun fs => .list (listToJson fs) where
  ne_null _ _ _ := nofun
  again {v fs} hv h := by
    cases v with
    | list items => exact readList?_listToJson (Json.isStandard_list_iff.1 hv) h
    | _ => cases h

theorem Model.roundTrips : RoundTrips Model.ofJson? Model.toJson where
  ne_null _ _ _ := nofun
  again {v m} hv h := by
    simp only [ofJson?, Option.bind_eq_bind, Option.bind_eq_some_iff, Option.some.injEq] at h ⊢
    obtain ⟨w, hw, name, hname, type, htype, title, htitle, description, hdescription, primaryKey,
      hprimaryKey, fields, hfields, quality, hquality, tags, htags, rfl⟩ := h
    have hs := hv.asRecord? hw
    have nothing : Field.asFields? (.list (Field.listToJson [])) = some [] := by
      simp [Field.asFields?, Field.readFields?, Field.listToJson, Field.readList?]
    refine ⟨toJson _, rfl, name, roundTrips_text.required hs hname ?_,
      type, roundTrips_text.optional hs htype ?_,
      title, roundTrips_text.optional hs htitle ?_,
      description, roundTrips_text.optional hs hdescription ?_,
      primaryKey, roundTrips_texts.optional hs hprimaryKey ?_,
      fields, Field.roundTrips_list.defaulted hs nothing hfields ?_,
      quality, (QualityRule.roundTrips false).list.defaulted_unless hs List.isEmpty_iff hquality ?_,
      tags, roundTrips_texts.defaulted_unless hs List.isEmpty_iff htags ?_, rfl⟩ <;> simp [toJson]

/-! ## Contracts -/

theorem Contact.roundTrips : RoundTrips Contact.ofJson? Contact.toJson where
  ne_null _ _ _ := nofun
  again {v c} hv h := by
    simp only [ofJson?, Option.bind_eq_bind, Option.bind_eq_some_iff, Option.some.injEq] at h ⊢
    obtain ⟨w, hw, name, hname, url, hurl, email, hemail, rfl⟩ := h
    have hs := hv.asRecord? hw
    refine ⟨toJson _, rfl, name, roundTrips_text.optional hs hname ?_,
      url, roundTrips_text.optional hs hurl ?_,
      email, roundTrips_text.optional hs hemail ?_, rfl⟩ <;> simp [toJson]

theorem Info.roundTrips : RoundTrips Info.ofJson? Info.toJson where
  ne_null _ _ _ := nofun
  again {v i} hv h := by
    simp only [ofJson?, Option.bind_eq_bind, Option.bind_eq_some_iff, Option.some.injEq] at h ⊢
    obtain ⟨w, hw, title, htitle, version, hversion, description, hdescription, owner, howner,
      contact, hcontact, rfl⟩ := h
    have hs := hv.asRecord? hw
    refine ⟨toJson _, rfl, title, roundTrips_text.required hs htitle ?_,
      version, roundTrips_text.required hs hversion ?_,
      description, roundTrips_text.optional hs hdescription ?_,
      owner, roundTrips_text.optional hs howner ?_,
      contact, Contact.roundTrips.optional hs hcontact ?_, rfl⟩ <;> simp [toJson]

theorem Terms.roundTrips : RoundTrips Terms.ofJson? Terms.toJson where
  ne_null _ _ _ := nofun
  again {v t} hv h := by
    simp only [ofJson?, Option.bind_eq_bind, Option.bind_eq_some_iff, Option.some.injEq] at h ⊢
    obtain ⟨w, hw, usage, husage, limitations, hlimitations, billing, hbilling, noticePeriod,
      hnoticePeriod, rfl⟩ := h
    have hs := hv.asRecord? hw
    refine ⟨toJson _, rfl, usage, roundTrips_text.optional hs husage ?_,
      limitations, roundTrips_text.optional hs hlimitations ?_,
      billing, roundTrips_text.optional hs hbilling ?_,
      noticePeriod, roundTrips_text.optional hs hnoticePeriod ?_, rfl⟩ <;> simp [toJson]

theorem Contract.roundTrips : RoundTrips Contract.ofJson? Contract.toJson where
  ne_null _ _ _ := nofun
  again {v c} hv h := by
    simp only [ofJson?, Option.bind_eq_bind, Option.bind_eq_some_iff, Option.some.injEq] at h ⊢
    obtain ⟨w, hw, specification, hspecification, id, hid, info, hinfo, terms, hterms, servers,
      hservers, models, hmodels, quality, hquality, rfl⟩ := h
    have hs := hv.asRecord? hw
    refine ⟨toJson _, rfl, specification, roundTrips_text.required hs hspecification ?_,
      id, roundTrips_text.required hs hid ?_,
      info, Info.roundTrips.required hs hinfo ?_,
      terms, Terms.roundTrips.optional hs hterms ?_,
      servers, Server.roundTrips.list.defaulted_unless hs List.isEmpty_iff hservers ?_,
      models, Model.roundTrips.list.defaulted hs rfl hmodels ?_,
      quality, (QualityRule.roundTrips false).list.defaulted_unless hs List.isEmpty_iff hquality ?_,
      rfl⟩ <;> simp [toJson]

/-- **A contract that was read is written to a value that is read as the same contract**, and so
writing it once more gives the same value. -/
theorem Contract.ofJson?_toJson {v : Json} {c : Contract} (hv : v.IsStandard)
    (h : ofJson? v = some c) :
    ofJson? c.toJson = some c ∧ ∀ d, ofJson? c.toJson = some d → d.toJson = c.toJson := by
  have again := roundTrips.again hv h
  refine ⟨again, fun d hd => ?_⟩
  rw [again] at hd
  cases hd
  rfl

/-! ## A value in another spelling -/

namespace OtherSpelling

/-- A scalar field by number, its type by another name, with an allowed value given twice. -/
def total : Json :=
  .object [("constraints", .object [("enum", .list [.text "b", .text "a", .text "b"])]),
    ("name", .text "total"), ("shape", .int 0), ("type", .text " Text ")]

/-- A field with the scalar one inside. -/
def line : Json :=
  .object [("container", .text "object"), ("fields", .list [total]), ("name", .text "line"),
    ("shape", .text "nested")]

/-- A contract whose description is a list, with a platform by another name. -/
def value : Json :=
  .object [("id", .text "shop"),
    ("info", .list [.text "Shop", .text "1.0.0", .null, .null, .null]),
    ("models", .list [.object [("fields", .list [line]), ("name", .text "orders")]]),
    ("servers", .list [.object [("name", .text "main"), ("type", .text " PostgreSQL")]]),
    ("specification", .text "1.1.0")]

/-- The field that is read. -/
def field : Field :=
  .nested { name := "line" } .object
    [.scalar { name := "total" } .string { allowed := some (Members.ofList ["b", "a", "b"]) }]

/-- The contract that is read. -/
def contract : Contract :=
  { Contract.named "shop" "Shop" "1.0.0" with
    servers := [{ name := "main", type := .postgres }]
    models := [{ name := "orders", fields := [field] }] }

lemma isStandard_value : value.IsStandard := by
  simp [value, line, total, Json.inIntegerRange, Json.leastInteger, Json.greatestInteger]

lemma read?_line : Field.read? false line = some field := by
  have type : DataType.parse? " Text " = some .string := by decide +kernel
  refine Field.read?_eq_nested_iff.2 ⟨rfl, rfl, rfl, ?_⟩
  refine Field.readList?_cons_iff.2 ⟨total, [], rfl, ?_, by rw [Field.readList?]⟩
  refine Field.read?_eq_scalar_iff.2 ⟨rfl, rfl, type, rfl⟩

lemma ofJson?_value : Contract.ofJson? value = some contract := by
  have fields : Field.asFields? (.list [line]) = some [field] :=
    Field.readList?_cons_iff.2 ⟨line, [], rfl, read?_line, by rw [Field.readList?]⟩
  have platform : ServerType.parse " PostgreSQL" = .postgres := by rfl
  simp [Contract.ofJson?, Model.ofJson?, Info.ofJson?, Server.ofJson?, ServerType.ofJson?, value,
    contract, Contract.named, Contract.defaultSpecification, Json.asRecord?, Json.required,
    Json.optional, Json.defaulted, Json.get?, lookupEntry, Json.asList?, Json.asText?, Json.text?,
    fields, platform]

end OtherSpelling

/-- The value is read, and what is written of it is another value of the same contract. -/
theorem Contract.ofJson?_toJson_of_other_spelling :
    OtherSpelling.value.IsStandard ∧
      ofJson? OtherSpelling.value = some OtherSpelling.contract ∧
      ofJson? OtherSpelling.contract.toJson = some OtherSpelling.contract := by
  have again := ofJson?_toJson OtherSpelling.isStandard_value OtherSpelling.ofJson?_value
  exact ⟨OtherSpelling.isStandard_value, OtherSpelling.ofJson?_value, again.1⟩

end ContractDrift
