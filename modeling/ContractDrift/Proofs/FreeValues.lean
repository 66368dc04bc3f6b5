import ContractDrift.Declaration.Reader
import ContractDrift.Proofs.Number
import ContractDrift.Proofs.SameValue

/-!
# Free values that are read are the same as themselves

Only NaN is not the same as itself, and a free value that is read from a document holds no NaN: a
number that is not finite is read as null, and an integer is never NaN.  So all defaults, examples
and parameters of a document that is read are *definite*.  A bound is read as a number and not as a
free value; nothing is said about bounds here.

* `Json.IsDefinite` — the value is the same as itself, `Parameters.IsDefinite` — all values are.
* `Yaml.Tree.isDefinite_of_json?` — a tree is read as a definite value.
* `FieldDeclaration.IsDefinite` — all free values in the declaration are definite, also those of the
  rules, items and fields inside; the same for the other declarations.
* **`FieldDeclaration.isDefinite_of_read?`**, **`ContractDeclaration.isDefinite_of_read?`** — what
  is read is definite.
-/

namespace ContractDrift

/-! ## Values -/

lemma Binary64.same_self {x : Binary64} (h : x ≠ .nan) : x.same x = true :=
  (same_iff_value?_eq h).2 rfl

lemma Binary64.ofRatio_ne_nan {negative : Bool} {num den : Nat} :
    ofRatio negative num den ≠ .nan := by
  unfold ofRatio
  split
  · simp [zero]
  · extract_lets exponent coefficient
    split
    split <;> simp

namespace Json

/-- The value is the same as itself. -/
def IsDefinite (v : Json) : Prop := v.same v = true

lemma isDefinite_null : null.IsDefinite := rfl

lemma isDefinite_bool (b : Bool) : (bool b).IsDefinite := by simp [IsDefinite, same]

lemma isDefinite_text (s : String) : (text s).IsDefinite := by simp [IsDefinite, same]

lemma isDefinite_int (n : Int) : (int n).IsDefinite := Binary64.same_self Binary64.ofRatio_ne_nan

lemma isDefinite_ofReal (x : Binary64) : (ofReal x).IsDefinite := by
  unfold ofReal
  split
  · rename_i h
    exact Binary64.same_self_of_isFinite h
  · exact isDefinite_null

lemma isDefinite_list {l : List Json} (h : ∀ v ∈ l, v.IsDefinite) : (list l).IsDefinite := by
  change sameList l l = true
  induction l with
  | nil => rfl
  | cons v rest ih =>
      rw [List.forall_mem_cons] at h
      simp only [sameList, Bool.and_eq_true]
      exact ⟨h.1, ih h.2⟩

lemma isDefinite_object_iff {entries : List (String × Json)} :
    (object entries).IsDefinite ↔ ∀ e ∈ entries, e.2.IsDefinite := by
  change sameEntries entries entries = true ↔ _
  induction entries with
  | nil => simp [sameEntries]
  | cons e rest ih =>
      simp only [sameEntries, beq_self_eq_true, Bool.true_and, Bool.and_eq_true, ih,
        List.forall_mem_cons, IsDefinite]

end Json

/-! ## Parameters -/

/-- All values are definite. -/
def Parameters.IsDefinite (p : Parameters) : Prop := ∀ k v, p.get? k = some v → v.IsDefinite

namespace Parameters

lemma isDefinite_ofList {l : List (String × Json)} (h : ∀ e ∈ l, e.2.IsDefinite) :
    Parameters.IsDefinite (Entries.ofList l) := by
  intro k v hv
  exact h _ (Entries.mem_of_get?_ofList hv)

lemma IsDefinite.insert {p : Parameters} (h : p.IsDefinite) {v : Json} (hv : v.IsDefinite)
    (name : String) : Parameters.IsDefinite (Entries.insert p name v) := by
  intro k w hw
  rw [Entries.get?_insert] at hw
  split at hw
  · cases hw
    exact hv
  · exact h k w hw

lemma IsDefinite.of_mem {p : Parameters} (h : p.IsDefinite) : ∀ e ∈ p.toList, e.2.IsDefinite := by
  intro e he
  exact h e.1 e.2 (lookupEntry_of_mem (Json.nodup_of_ascending p.ascending) he)

/-- Definite parameters are the same as themselves. -/
lemma IsDefinite.same_self {p : Parameters} (h : p.IsDefinite) : p.same p = true := by
  rw [Parameters.same_iff]
  intro k
  cases hk : p.get? k with
  | none => rfl
  | some v => exact h k v hk

end Parameters

/-! ## Reading values -/

namespace Yaml.Tree

variable {reading : Reading}

lemma isDefinite_toJson (a : Atom) : a.toJson.IsDefinite := by
  cases a with
  | null => exact Json.isDefinite_null
  | bool b => exact Json.isDefinite_bool b
  | int n => exact Json.isDefinite_int n
  | real x => exact Json.isDefinite_ofReal x
  | text s => exact Json.isDefinite_text s

mutual

/-- **A tree is read as a definite value.** -/
theorem isDefinite_of_json? : ∀ {t : Tree} {v : Json}, json? reading t = some v → v.IsDefinite
  | .scalar tag style s, v, h => by
      unfold json? at h
      split at h
      · cases h
      · obtain ⟨a, _, rfl⟩ := Option.map_eq_some_iff.1 h
        exact isDefinite_toJson a
  | .sequence tag items, v, h => by
      unfold json? at h
      split at h
      · cases h
      · obtain ⟨vs, hvs, rfl⟩ := Option.map_eq_some_iff.1 h
        exact Json.isDefinite_list (isDefinite_of_jsonItems? hvs)
  | .mapping tag entries, v, h => by
      unfold json? at h
      split at h
      · cases h
      · obtain ⟨es, hes, rfl⟩ := Option.map_eq_some_iff.1 h
        have definite := Parameters.isDefinite_ofList (isDefinite_of_jsonEntries? hes)
        exact Json.isDefinite_object_iff.2 definite.of_mem
  | .beyond, v, h => by simp [json?] at h

theorem isDefinite_of_jsonItems? : ∀ {items : List Tree} {vs : List Json},
    jsonItems? reading items = some vs → ∀ v ∈ vs, v.IsDefinite
  | [], vs, h => by
      cases h
      exact fun _ hv => absurd hv List.not_mem_nil
  | t :: rest, vs, h => by
      simp only [jsonItems?, Option.bind_eq_bind, Option.bind_eq_some_iff, Option.some.injEq] at h
      obtain ⟨v, hv, more, hmore, rfl⟩ := h
      exact List.forall_mem_cons.2 ⟨isDefinite_of_json? hv, isDefinite_of_jsonItems? hmore⟩

theorem isDefinite_of_jsonEntries? : ∀ {entries : List (Tree × Tree)}
    {es : List (String × Json)}, jsonEntries? reading entries = some es →
      ∀ e ∈ es, e.2.IsDefinite
  | [], es, h => by
      cases h
      exact fun _ hv => absurd hv List.not_mem_nil
  | (k, t) :: rest, es, h => by
      simp only [jsonEntries?, Option.bind_eq_bind, Option.bind_eq_some_iff, Option.some.injEq] at h
      obtain ⟨key, _, v, hv, more, hmore, rfl⟩ := h
      exact List.forall_mem_cons.2 ⟨isDefinite_of_json? hv, isDefinite_of_jsonEntries? hmore⟩

end

end Yaml.Tree

/-! ## Declarations -/

/-- The parameters of the rule are definite. -/
def RuleDeclaration.IsDefinite (r : RuleDeclaration) : Prop := r.parameters.IsDefinite

/-- The free values and the rules of a field are definite. -/
structure FieldKeywords.IsDefinite (k : FieldKeywords) : Prop where
  default? : ∀ v ∈ k.default?, v.IsDefinite
  example? : ∀ v ∈ k.example?, v.IsDefinite
  rules : ∀ rules ∈ k.quality, ∀ r ∈ rules, r.IsDefinite

/-- All free values of the field, its items and the fields inside are definite. -/
inductive FieldDeclaration.IsDefinite : FieldDeclaration → Prop
  | intro {d : FieldDeclaration} (keywords : d.keywords.IsDefinite)
      (items : ∀ i ∈ d.items, FieldDeclaration.IsDefinite i)
      (fields : ∀ e ∈ d.fields, FieldDeclaration.IsDefinite e.2) : FieldDeclaration.IsDefinite d

/-- All free values of the model are definite. -/
structure ModelDeclaration.IsDefinite (m : ModelDeclaration) : Prop where
  fields : ∀ e ∈ m.fields, e.2.IsDefinite
  rules : ∀ rules ∈ m.quality, ∀ r ∈ rules, r.IsDefinite

/-- All free values of the document are definite. -/
structure ContractDeclaration.IsDefinite (c : ContractDeclaration) : Prop where
  servers : ∀ e ∈ c.servers, e.2.parameters.IsDefinite
  models : ∀ e ∈ c.models, e.2.IsDefinite
  definitions : ∀ e ∈ c.definitions, e.2.IsDefinite
  rules : ∀ rules ∈ c.quality, ∀ r ∈ rules, r.IsDefinite

/-! ## Reading declarations -/

section Reading

open Yaml (Tree Reading slot? optionalSlot?)

variable {reading : Reading} {entries : List (String × Tree)}

lemma exists_of_mapM_eq_some {α β : Type} {f : α → Option β} : ∀ {l : List α} {m : List β},
    l.mapM f = some m → ∀ b ∈ m, ∃ a ∈ l, f a = some b
  | [], m, h => by
      rw [List.mapM_nil] at h
      cases h
      exact fun _ hb => absurd hb List.not_mem_nil
  | a :: l, m, h => by
      simp only [List.mapM_cons, Option.bind_eq_bind, Option.bind_eq_some_iff, Option.pure_def,
        Option.some.injEq] at h
      obtain ⟨b, hb, rest, hrest, rfl⟩ := h
      intro x hx
      rcases List.mem_cons.1 hx with rfl | hx
      · exact ⟨a, List.mem_cons_self, hb⟩
      · obtain ⟨y, hy, hyx⟩ := exists_of_mapM_eq_some hrest x hx
        exact ⟨y, List.mem_cons_of_mem _ hy, hyx⟩

/-- What an optional slot holds was read from some tree. -/
lemma exists_of_optionalSlot? {α : Type} {keys : List String} {read : Tree → Option α}
    {o : Option α} (h : optionalSlot? reading keys read entries = some o) :
    ∀ a ∈ o, ∃ t, read t = some a := by
  rintro a rfl
  unfold optionalSlot? at h
  split at h
  · cases h
  · cases h
  · rename_i t _
    unfold Tree.optional? at h
    split at h
    · cases h
    · cases h
    · obtain ⟨b, hb, hba⟩ := Option.map_eq_some_iff.1 h
      cases hba
      exact ⟨t, hb⟩

lemma isDefinite_of_freeKeywords? {keys : List String} {p : Parameters}
    (h : freeKeywords? keys entries = some p) : p.IsDefinite := by
  simp only [freeKeywords?, Option.bind_eq_bind, Option.bind_eq_some_iff, Option.some.injEq] at h
  obtain ⟨free, hfree, rfl⟩ := h
  refine Parameters.isDefinite_ofList fun e he => ?_
  obtain ⟨⟨k, t⟩, _, hread⟩ := exists_of_mapM_eq_some hfree e he
  obtain ⟨v, hv, hve⟩ := Option.bind_eq_some_iff.1 hread
  cases hve
  exact Tree.isDefinite_of_json? hv

lemma RuleDeclaration.isDefinite_of_read? {t : Tree} {r : RuleDeclaration}
    (h : read? t = some r) : r.IsDefinite := by
  unfold read? at h
  split at h
  · -- twelve keywords stand before the free ones
    iterate 12 obtain ⟨_, _, h⟩ := Option.bind_eq_some_iff.1 h
    obtain ⟨parameters, hparameters, h⟩ := Option.bind_eq_some_iff.1 h
    cases h
    exact isDefinite_of_freeKeywords? hparameters
  · cases h

lemma RuleDeclaration.isDefinite_of_readSection? {t : Tree} {rules : List RuleDeclaration}
    (h : readSection? t = some rules) : ∀ r ∈ rules, r.IsDefinite := by
  intro r hr
  unfold readSection? at h
  split at h
  · cases h
  · split at h
    · obtain ⟨u, _, hu⟩ := exists_of_mapM_eq_some h r hr
      exact isDefinite_of_read? hu
    · obtain ⟨s, hs, rfl⟩ := Option.map_eq_some_iff.1 h
      obtain rfl := List.mem_singleton.1 hr
      exact isDefinite_of_read? hs

lemma isDefinite_of_qualitySlot? {quality : Option (List RuleDeclaration)}
    (h : qualitySlot? reading entries = some quality) :
    ∀ rules ∈ quality, ∀ r ∈ rules, r.IsDefinite := by
  intro rules hrules
  obtain ⟨t, ht⟩ := exists_of_optionalSlot? h rules hrules
  exact RuleDeclaration.isDefinite_of_readSection? ht

lemma FieldKeywords.isDefinite_of_read? {k : FieldKeywords}
    (h : read? reading entries = some k) : k.IsDefinite := by
  unfold read? at h
  iterate 6 obtain ⟨_, _, h⟩ := Option.bind_eq_some_iff.1 h
  obtain ⟨default?, hdefault, h⟩ := Option.bind_eq_some_iff.1 h
  iterate 3 obtain ⟨_, _, h⟩ := Option.bind_eq_some_iff.1 h
  obtain ⟨quality, hquality, h⟩ := Option.bind_eq_some_iff.1 h
  iterate 3 obtain ⟨_, _, h⟩ := Option.bind_eq_some_iff.1 h
  obtain ⟨example?, hexample, h⟩ := Option.bind_eq_some_iff.1 h
  cases h
  refine ⟨fun v hv => ?_, fun v hv => ?_, isDefinite_of_qualitySlot? hquality⟩
  · obtain ⟨t, ht⟩ := exists_of_optionalSlot? hdefault v hv
    exact Tree.isDefinite_of_json? ht
  · obtain ⟨t, ht⟩ := exists_of_optionalSlot? hexample v hv
    exact Tree.isDefinite_of_json? ht

/-- **A field is read with definite values only.** -/
theorem FieldDeclaration.isDefinite_of_read? (reading : Reading) (t : Tree) :
    ∀ {d : FieldDeclaration}, read? reading t = some d → d.IsDefinite := by
  induction t using read?.induct reading with
  | case1 t hnone =>
      intro d h
      rw [read?] at h
      split at h
      · cases h
      · rename_i hsome
        cases hnone.symm.trans hsome
  | case2 t entries hentries ihfields ihitems =>
      intro d h
      rw [read?] at h
      split at h
      · cases h
      · rename_i entries' hsome
        obtain rfl := Option.some.inj (hentries.symm.trans hsome)
        simp only [Option.bind_eq_bind, Option.bind_eq_some_iff] at h
        obtain ⟨keywords, hkeywords, parts, _, fields, hfields, item, _, h⟩ := h
        have definite : ∀ e ∈ fields, FieldDeclaration.IsDefinite e.2 := by
          intro e he
          obtain ⟨⟨name, u, hu⟩, _, hread⟩ := exists_of_mapM_eq_some hfields e he
          obtain ⟨f, hf, hfe⟩ := Option.bind_eq_some_iff.1 hread
          cases hfe
          exact ihfields u hu hf
        have hk := FieldKeywords.isDefinite_of_read? hkeywords
        split at h
        · cases h
          exact .intro hk (fun _ hi => by cases hi) definite
        · rename_i u hu _
          obtain ⟨items, hitems, h⟩ := Option.bind_eq_some_iff.1 h
          cases h
          refine .intro hk (fun i hi => ?_) definite
          cases hi
          exact ihitems u hu hitems

/-- What a slot of named parts holds was read from some tree. -/
lemma exists_of_namedSlot? {α : Type} {key : String} {read : Tree → Option α}
    {l : List (String × α)} (h : namedSlot? reading key read entries = some l) :
    ∀ e ∈ l, ∃ t, read t = some e.2 := by
  intro e he
  unfold namedSlot? at h
  split at h
  · cases h
  · cases h
    exact absurd he List.not_mem_nil
  · simp only [Option.bind_eq_bind, Option.bind_eq_some_iff] at h
    obtain ⟨parts, _, h⟩ := h
    obtain ⟨⟨name, t⟩, _, hread⟩ := exists_of_mapM_eq_some h e he
    simp only [Option.bind_eq_some_iff] at hread
    obtain ⟨a, ha, hae⟩ := hread
    cases hae
    exact ⟨t, ha⟩

lemma ServerDeclaration.isDefinite_of_read? {t : Tree} {s : ServerDeclaration}
    (h : read? t = some s) : s.parameters.IsDefinite := by
  simp only [read?, Option.bind_eq_bind, Option.bind_eq_some_iff, Option.some.injEq] at h
  obtain ⟨_, _, _, _, _, _, parameters, hparameters, rfl⟩ := h
  exact isDefinite_of_freeKeywords? hparameters

lemma ModelDeclaration.isDefinite_of_read? {t : Tree} {m : ModelDeclaration}
    (h : read? t = some m) : m.IsDefinite := by
  simp only [read?, Option.bind_eq_bind, Option.bind_eq_some_iff, Option.some.injEq] at h
  obtain ⟨_, _, _, _, _, _, _, _, _, _, fields, hfields, quality, hquality, _, _, rfl⟩ := h
  refine ⟨fun e he => ?_, isDefinite_of_qualitySlot? hquality⟩
  obtain ⟨u, hu⟩ := exists_of_namedSlot? hfields e he
  exact FieldDeclaration.isDefinite_of_read? _ u hu

lemma ContractDeclaration.isDefinite_of_ofTree? {t : Tree} {c : ContractDeclaration}
    (h : ofTree? t = some c) : c.IsDefinite := by
  simp only [ofTree?, Option.bind_eq_bind, Option.bind_eq_some_iff, Option.some.injEq] at h
  obtain ⟨_, _, _, _, _, _, _, _, _, _, servers, hservers, models, hmodels, definitions,
    hdefinitions, quality, hquality, rfl⟩ := h
  refine ⟨fun e he => ?_, fun e he => ?_, fun e he => ?_, isDefinite_of_qualitySlot? hquality⟩
  · obtain ⟨u, hu⟩ := exists_of_namedSlot? hservers e he
    exact ServerDeclaration.isDefinite_of_read? hu
  · obtain ⟨u, hu⟩ := exists_of_namedSlot? hmodels e he
    exact ModelDeclaration.isDefinite_of_read? hu
  · obtain ⟨u, hu⟩ := exists_of_namedSlot? hdefinitions e he
    exact FieldDeclaration.isDefinite_of_read? _ u hu

/-- **A document is read with definite values only.** -/
theorem ContractDeclaration.isDefinite_of_read? {text : String} {c : ContractDeclaration}
    (h : read? text = some c) : c.IsDefinite := by
  simp only [read?, Option.bind_eq_bind, Option.bind_eq_some_iff] at h
  obtain ⟨document, _, h⟩ := h
  split at h
  · cases h
    exact ⟨by simp, by simp, by simp, by simp⟩
  · exact isDefinite_of_ofTree? h

end Reading

end ContractDrift
