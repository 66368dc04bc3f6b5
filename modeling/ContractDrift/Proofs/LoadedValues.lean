import ContractDrift.Proofs.FreeValues
import ContractDrift.Proofs.Loaded
import ContractDrift.Proofs.Places

/-!
# Free values of a loaded contract

Loading adds values of its own to those of a declaration: the name of an engine, a unit, and the
content of documents that definitions and specifications are in.  All of them are definite, so a
contract that is loaded from a text has definite free values, whatever its fetcher answers.

* `LoadContext.isDefinite_of_rules` — the rules of a section have definite parameters.
* `LoadContext.keeps_isDefinite` — a field that is loaded from a definite declaration is definite.
* **`Contract.isDefinite_of_ofText`** — so all parts of a loaded contract are.
-/

namespace ContractDrift

/-! ## Definite parts -/

/-- The free values of a field, of its rules and of the fields inside of it are definite. -/
inductive Field.IsDefinite : Field → Prop
  | intro {f : Field} (default? : ∀ v ∈ f.attributes.default?, v.IsDefinite)
      (example? : ∀ v ∈ f.attributes.metadata.example?, v.IsDefinite)
      (rules : ∀ r ∈ f.attributes.quality, r.parameters.IsDefinite)
      (children : ∀ g ∈ f.children, Field.IsDefinite g) : Field.IsDefinite f

/-- The free values of a part are definite, those of the parts below it apart. -/
def Node.IsDefinite : Node → Prop
  | .server s => s.parameters.IsDefinite
  | .field f => (∀ v ∈ f.attributes.default?, v.IsDefinite) ∧
      ∀ v ∈ f.attributes.metadata.example?, v.IsDefinite
  | .quality r => r.parameters.IsDefinite
  | _ => True

/-- All free values of the contract are definite. -/
structure Contract.IsDefinite (c : Contract) : Prop where
  servers : ∀ s ∈ c.servers, s.parameters.IsDefinite
  fields : ∀ m ∈ c.models, ∀ f ∈ m.fields, f.IsDefinite
  modelRules : ∀ m ∈ c.models, ∀ r ∈ m.quality, r.parameters.IsDefinite
  rules : ∀ r ∈ c.quality, r.parameters.IsDefinite

namespace Contract

variable {c : Contract} {p : Path}

lemma IsDefinite.of_fieldAt (h : c.IsDefinite) {f : Field} (hf : c.FieldAt p f) :
    f.IsDefinite := by
  induction hf with
  | top hm hf => exact h.fields _ hm _ hf
  | inner _ hg ih =>
      obtain ⟨_, _, _, children⟩ := ih
      exact children _ hg

/-- All parts of a definite contract are definite. -/
lemma IsDefinite.of_nodeAt (h : c.IsDefinite) {n : Node} (hn : c.NodeAt p n) : n.IsDefinite := by
  cases n with
  | info _ | terms _ | model _ => trivial
  | server s => exact h.servers s hn.1
  | field f =>
      obtain ⟨default?, example?, _, _⟩ := h.of_fieldAt hn
      exact ⟨default?, example?⟩
  | quality r =>
      cases hn with
      | contract hr => exact h.rules r hr.mem
      | model hm hr => exact h.modelRules _ hm.1 r hr.mem
      | field hf hr =>
          obtain ⟨_, _, rules, _⟩ := h.of_fieldAt hf
          exact rules r hr.mem

end Contract

/-! ## Rules -/

lemma RuleDeclaration.isDefinite_of_kind {r : RuleDeclaration} {path : String} {kind : QualityKind}
    {parameters : Parameters} (hr : r.IsDefinite) (h : r.kind path = .ok (kind, parameters)) :
    parameters.IsDefinite := by
  rcases parameters_of_kind h with rfl | ⟨engine, rfl⟩
  · exact hr
  · exact hr.insert (Json.isDefinite_text _) _

lemma RuleDeclaration.IsRule.isDefinite {r : RuleDeclaration} {path : String} {rule : QualityRule}
    (h : r.IsRule path rule) (hr : r.IsDefinite) : rule.parameters.IsDefinite := by
  obtain ⟨kind, parameters, hkind, hrule | ⟨unit, hrule⟩⟩ := h.parameters
  · rw [hrule]
    exact isDefinite_of_kind hr hkind
  · rw [hrule]
    exact (isDefinite_of_kind hr hkind).insert (Json.isDefinite_text _) _

namespace LoadContext

variable {context : LoadContext}

lemma isDefinite_of_specification {reference : String} {v : Json}
    (h : context.specification reference = .ok v) : v.IsDefinite := by
  unfold specification at h
  obtain ⟨text, _, h⟩ := bind_eq_ok_iff.1 h
  split at h
  · cases h
    exact Json.isDefinite_text _
  · cases h
    exact Json.isDefinite_null
  · rename_i t _
    cases h
    cases ht : t.json? .written with
    | none => exact Json.isDefinite_text _
    | some v => exact Yaml.Tree.isDefinite_of_json? ht

lemma isDefinite_of_inlined {v w : Json} (hv : v.IsDefinite) (h : context.inlined v = .ok w) :
    w.IsDefinite := by
  unfold inlined at h
  split at h
  · exact isDefinite_of_specification h
  · cases h
    exact hv

lemma isDefinite_of_inlinedSpecification {perModel : Bool} {v w : Json} (hv : v.IsDefinite)
    (h : context.inlinedSpecification perModel v = .ok w) : w.IsDefinite := by
  unfold inlinedSpecification at h
  split at h
  · rename_i entries
    obtain ⟨inlined, hinlined, h⟩ := bind_eq_ok_iff.1 h
    cases h
    refine Json.isDefinite_object_iff.2 fun e he => ?_
    obtain ⟨⟨model, u⟩, hmem, hu⟩ := exists_left_of_forall₂ (forall₂_of_mapM_eq_ok hinlined) he
    obtain ⟨x, hx, hxe⟩ := bind_eq_ok_iff.1 hu
    cases hxe
    exact isDefinite_of_inlined (Json.isDefinite_object_iff.1 hv _ hmem) hx
  · exact isDefinite_of_inlined hv h

/-- **The rules of a section have definite parameters.** -/
theorem isDefinite_of_rules {scope : String} {declared : Option (List RuleDeclaration)}
    {rules : List QualityRule} (hd : ∀ l ∈ declared, ∀ r ∈ l, r.IsDefinite)
    (h : context.rules scope declared = .ok rules) : ∀ r ∈ rules, r.parameters.IsDefinite := by
  intro rule hrule
  obtain ⟨r, hr, path, s, hs, hsr⟩ := exists_left_of_forall₂ (forall₂_of_rules h).2 hrule
  have hdefinite : r.IsDefinite := by
    cases declared with
    | none => exact absurd hr List.not_mem_nil
    | some l => exact hd l rfl r hr
  refine hsr.isDefinite ?_
  rcases eq_of_withSpecification hs with rfl | ⟨v, w, hv, hw, rfl⟩
  · exact hdefinite
  · exact hdefinite.insert (isDefinite_of_inlinedSpecification (hdefinite _ v hv) hw) _

end LoadContext

/-! ## Definitions -/

lemma forall_mem_or {α : Type} {P : α → Prop} {a b : Option α} (ha : ∀ x ∈ a, P x)
    (hb : ∀ x ∈ b, P x) : ∀ x ∈ a.or b, P x := by
  cases a with
  | none => exact hb
  | some a => exact ha

lemma FieldKeywords.IsDefinite.inherit {k d : FieldKeywords} (hk : k.IsDefinite)
    (hd : d.IsDefinite) : (k.inherit d).IsDefinite where
  default? := forall_mem_or hk.default? hd.default?
  example? := forall_mem_or hk.example? hd.example?
  rules := forall_mem_or hk.rules hd.rules

lemma FieldDeclaration.IsDefinite.inherit {f d : FieldDeclaration} (hf : f.IsDefinite)
    (hd : d.IsDefinite) : (f.inherit d).IsDefinite := by
  obtain ⟨hkeywords, hitems, hfields⟩ := hf
  obtain ⟨dkeywords, ditems, dfields⟩ := hd
  refine .intro (hkeywords.inherit dkeywords) (forall_mem_or hitems ditems) ?_
  unfold FieldDeclaration.inherit
  dsimp only
  split
  · exact dfields
  · exact hfields

lemma FieldDeclaration.IsDefinite.withoutReference {f : FieldDeclaration} (hf : f.IsDefinite) :
    f.withoutReference.IsDefinite := by
  obtain ⟨keywords, items, fields⟩ := hf
  exact .intro ⟨keywords.default?, keywords.example?, keywords.rules⟩ items fields

namespace LoadContext

variable {context : LoadContext}

lemma isDefinite_of_definition (hc : ∀ e ∈ context.definitions, e.2.IsDefinite)
    {path reference : String} {d : FieldDeclaration}
    (h : context.definition path reference = .ok d) : d.IsDefinite := by
  unfold definition at h
  split at h
  · split at h
    · rename_i name _ _ e hlookup
      cases h
      obtain ⟨before, after, hsplit, _⟩ := List.lookup_eq_some_iff.1 hlookup
      have hmem : (name, d) ∈ context.definitions.reverse := by
        rw [hsplit]
        exact List.mem_append_right _ List.mem_cons_self
      exact hc _ (List.mem_reverse.1 hmem)
    · cases h
  · cases h
  · obtain ⟨text, _, h⟩ := bind_eq_ok_iff.1 h
    split at h
    · cases h
    · split at h
      · cases h
      · split at h
        · cases h
        · rename_i target _ _ e hread
          cases h
          exact FieldDeclaration.isDefinite_of_read? _ target hread

/-- **A field that is loaded from a definite declaration is definite.** -/
theorem keeps_isDefinite (hc : ∀ e ∈ context.definitions, e.2.IsDefinite) :
    context.Keeps FieldDeclaration.IsDefinite Field.IsDefinite where
  inline := by
    intro path depth d e hd h
    unfold withDefinition at h
    split at h
    · cases h
      exact hd
    · split at h
      · cases h
      · split at h
        · obtain ⟨target, htarget, h⟩ := bind_eq_ok_iff.1 h
          cases h
          exact hd.withoutReference.inherit (isDefinite_of_definition hc htarget)
        · cases h
          exact hd.withoutReference
  items := by
    rintro d e ⟨_, items, _⟩ he
    exact items e he
  fields := by
    rintro d ⟨_, _, fields⟩
    exact fields
  step := by
    rintro path name d quality f ⟨keywords, _, _⟩ hquality hattributes _ inside
    refine .intro ?_ ?_ ?_ inside
    · rw [hattributes]
      exact keywords.default?
    · rw [hattributes]
      exact keywords.example?
    · rw [hattributes]
      exact isDefinite_of_rules keywords.rules hquality

end LoadContext

namespace Contract

/-- A contract that is loaded from a definite document is definite. -/
lemma isDefinite_of_ofDeclaration {settings : LoaderSettings} {fetcher : Fetcher}
    {base : Option String} {d : ContractDeclaration} {c : Contract} (hd : d.IsDefinite)
    (h : ofDeclaration settings fetcher base d = .ok c) : c.IsDefinite := by
  have source := contractFrom_of_ofDeclaration h
  refine ⟨?_, ?_, ?_, ?_⟩
  · intro s hs
    obtain ⟨e, he, hs⟩ := exists_left_of_forall₂ source.servers hs
    rw [hs.parameters]
    exact hd.servers e he
  · intro m hm
    obtain ⟨e, he, hm⟩ := exists_left_of_forall₂ source.models hm
    obtain ⟨_, _, hfields⟩ := hm.fields
    have keeps : LoadContext.Keeps ⟨settings, fetcher, base, d.definitions⟩ _ _ :=
      LoadContext.keeps_isDefinite hd.definitions
    exact (keeps.fieldList (hd.models e he).fields hfields).2
  · intro m hm
    obtain ⟨e, he, hm⟩ := exists_left_of_forall₂ source.models hm
    obtain ⟨_, hrules⟩ := hm.rules
    exact LoadContext.isDefinite_of_rules (hd.models e he).rules hrules
  · obtain ⟨_, hrules⟩ := source.rules
    exact LoadContext.isDefinite_of_rules hd.rules hrules

/-- A text that is loaded declares the contract. -/
lemma exists_of_ofText {settings : LoaderSettings} {fetcher : Fetcher} {text : String}
    {base : Option String} {c : Contract} (h : ofText settings fetcher text base = .ok c) :
    ∃ d, ContractDeclaration.read? text = some d ∧
      ofDeclaration settings fetcher base d = .ok c := by
  unfold ofText at h
  split at h
  · cases h
  · split at h
    · cases h
    · rename_i d hd
      exact ⟨d, hd, h⟩

/-- **A contract that is loaded from a text is definite**, whatever the settings and the fetcher. -/
theorem isDefinite_of_ofText {settings : LoaderSettings} {fetcher : Fetcher} {text : String}
    {base : Option String} {c : Contract} (h : ofText settings fetcher text base = .ok c) :
    c.IsDefinite := by
  obtain ⟨d, hread, hd⟩ := exists_of_ofText h
  exact isDefinite_of_ofDeclaration (ContractDeclaration.isDefinite_of_read? hread) hd

end Contract

end ContractDrift
