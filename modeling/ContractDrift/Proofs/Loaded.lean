import ContractDrift.Loading.Contract
import Mathlib.Data.List.Forall2
import Mathlib.Data.List.Nodup

/-!
# What a contract that was loaded comes from

Loading is a chain of steps each of which can fail.  If the whole succeeds every step did, so each
part of a loaded contract comes from a declaration, and the checks on the way held.  Fields refer to
definitions and contain fields and items, which is followed once and for all here.

* `bind_eq_ok_iff`, `forall₂_of_mapM_eq_ok` — success of a chain, and of a list of steps.
* `checkUnique_eq_ok_iff` — the check of names is that they are distinct.
* `RuleDeclaration.IsRule`, `LoadContext.forall₂_of_rules` — the rules of a section.
* `LoadContext.Keeps` — what steps of loading a field keep: a property `D` of declarations and a
  property `P` of fields; **`LoadContext.Keeps.fieldList`** — then what is loaded from
  declarations with `D` has `P`, whatever definitions it goes through.
* **`Contract.contractFrom_of_ofDeclaration`** — the parts of a loaded contract.
-/

namespace ContractDrift

/-! ## Steps that can fail -/

section Steps

variable {ε α β γ : Type}

lemma bind_eq_ok_iff {x : Except ε α} {f : α → Except ε β} {b : β} :
    (x >>= f) = .ok b ↔ ∃ a, x = .ok a ∧ f a = .ok b := by
  cases x <;> simp [bind, Except.bind]

lemma forall₂_of_mapM_eq_ok {f : α → Except ε β} :
    ∀ {l : List α} {m : List β}, l.mapM f = .ok m → List.Forall₂ (fun a b => f a = .ok b) l m
  | [], m, h => by
      rw [List.mapM_nil] at h
      cases h
      exact .nil
  | a :: l, m, h => by
      rw [List.mapM_cons, bind_eq_ok_iff] at h
      obtain ⟨b, hb, h⟩ := h
      obtain ⟨bs, hbs, h⟩ := bind_eq_ok_iff.1 h
      cases h
      exact .cons hb (forall₂_of_mapM_eq_ok hbs)

lemma map_eq_of_forall₂ {S : α → β → Prop} {l : List α} {m : List β} {f : α → γ} {g : β → γ}
    (h : List.Forall₂ S l m) (hS : ∀ a b, S a b → g b = f a) : m.map g = l.map f := by
  induction h with
  | nil => rfl
  | cons hab _ ih => rw [List.map_cons, List.map_cons, hS _ _ hab, ih]

lemma exists_left_of_forall₂ {S : α → β → Prop} {l : List α} {m : List β} {b : β}
    (h : List.Forall₂ S l m) (hb : b ∈ m) : ∃ a ∈ l, S a b := by
  induction h with
  | nil => exact absurd hb List.not_mem_nil
  | @cons a _ _ _ hab _ ih =>
      rcases List.mem_cons.1 hb with rfl | hb
      · exact ⟨a, List.mem_cons_self, hab⟩
      · obtain ⟨x, hx, hxb⟩ := ih hb
        exact ⟨x, List.mem_cons_of_mem _ hx, hxb⟩

end Steps

/-! ## Names -/

lemma repeatedName?_eq_none_iff {names : List String} : ∀ {earlier : List String},
    repeatedName? earlier names = none ↔ names.Nodup ∧ ∀ name ∈ names, name ∉ earlier := by
  induction names with
  | nil => simp [repeatedName?]
  | cons name rest ih =>
      intro earlier
      unfold repeatedName?
      split
      · rename_i h
        have hmem : name ∈ earlier := by simpa using h
        simp [hmem]
      · rename_i h
        have hmem : name ∉ earlier := by simpa using h
        rw [ih, List.nodup_cons]
        simp only [List.mem_cons, not_or, forall_eq_or_imp]
        constructor
        · rintro ⟨hrest, hnew⟩
          exact ⟨⟨fun h => (hnew name h).1 rfl, hrest⟩, hmem, fun n hn => (hnew n hn).2⟩
        · rintro ⟨⟨hname, hrest⟩, _, hnew⟩
          exact ⟨hrest, fun n hn => ⟨fun h => hname (h ▸ hn), hnew n hn⟩⟩

/-- **The check of names** succeeds exactly if they are distinct. -/
theorem checkUnique_eq_ok_iff {scope kind : String} {names : List String} {u : Unit} :
    checkUnique scope kind names = .ok u ↔ names.Nodup := by
  have h : repeatedName? [] names = none ↔ names.Nodup := by
    simp [repeatedName?_eq_none_iff]
  rw [← h, checkUnique]
  split <;> rename_i hr <;> simp [hr]

/-! ## Rules -/

namespace RuleDeclaration

/-- The parameters that go with a kind are those declared, with the engine added where the type
names one. -/
lemma parameters_of_kind {r : RuleDeclaration} {path : String} {kind : QualityKind}
    {parameters : Parameters} (h : r.kind path = .ok (kind, parameters)) :
    parameters = r.parameters ∨
      ∃ engine, parameters = r.parameters.insert "engine" (.text engine) := by
  have metric : RuleDeclaration.kind.ofMetric r path = .ok (kind, parameters) →
      parameters = r.parameters := by
    intro h
    unfold RuleDeclaration.kind.ofMetric at h
    dsimp only at h
    split at h <;> cases h
    rfl
  unfold RuleDeclaration.kind at h
  split at h
  · cases h
    exact .inl rfl
  · cases h
    exact .inl rfl
  · cases h
    exact .inl rfl
  · split at h
    · exact .inl (metric h)
    · cases h
      split
      · exact .inl rfl
      · exact .inr ⟨_, rfl⟩
  · exact .inl (metric h)

/-- The rule that a declaration becomes: its parameters are those that go with its kind, with the
unit added where it is a parameter. -/
structure IsRule (r : RuleDeclaration) (path : String) (rule : QualityRule) : Prop where
  name : rule.name = r.name
  parameters : ∃ kind parameters, r.kind path = .ok (kind, parameters) ∧
    (rule.parameters = parameters ∨
      ∃ unit, rule.parameters = parameters.insert "unit" (.text unit))

lemma isRule_of_toRule {r : RuleDeclaration} {path : String} {rule : QualityRule}
    (h : r.toRule path = .ok rule) : r.IsRule path rule := by
  unfold toRule at h
  obtain ⟨⟨kind, parameters⟩, hkind, h⟩ := bind_eq_ok_iff.1 h
  simp only at h
  split at h
  · obtain ⟨threshold, _, h⟩ := bind_eq_ok_iff.1 h
    split at h
    · cases h
      exact ⟨rfl, kind, parameters, hkind, .inl rfl⟩
    · split at h
      · split at h
        · cases h
          exact ⟨rfl, kind, parameters, hkind, .inl rfl⟩
        · cases h
      · cases h
        exact ⟨rfl, kind, parameters, hkind, .inr ⟨_, rfl⟩⟩
  · cases h

end RuleDeclaration

namespace LoadContext

variable {context : LoadContext}

/-- A rule with its specification is the rule, or the content of what it refers to is put in. -/
lemma eq_of_withSpecification {r s : RuleDeclaration} (h : context.withSpecification r = .ok s) :
    s = r ∨ ∃ v w, r.parameters.get? "specification" = some v ∧
      context.inlinedSpecification r.isPerModel v = .ok w ∧
      s = { r with parameters := r.parameters.insert "specification" w } := by
  unfold withSpecification at h
  split at h
  · cases h
    exact .inl rfl
  · rename_i v hv
    split at h
    · obtain ⟨w, hw, h⟩ := bind_eq_ok_iff.1 h
      cases h
      exact .inr ⟨v, w, hv, hw, rfl⟩
    · cases h
      exact .inl rfl

/-- The rule is loaded from the declaration. -/
def RuleFrom (context : LoadContext) (r : RuleDeclaration) (rule : QualityRule) : Prop :=
  ∃ path s, context.withSpecification r = .ok s ∧ s.IsRule path rule

lemma RuleFrom.name {r : RuleDeclaration} {rule : QualityRule} (h : context.RuleFrom r rule) :
    rule.name = r.name := by
  obtain ⟨path, s, hs, hrule⟩ := h
  rcases eq_of_withSpecification hs with rfl | ⟨v, w, _, _, rfl⟩
  · exact hrule.name
  · exact hrule.name

lemma forall₂_of_rulesFrom {scope : String} : ∀ {i : Nat} {declared : List RuleDeclaration}
    {rules : List QualityRule}, context.rulesFrom scope i declared = .ok rules →
      List.Forall₂ context.RuleFrom declared rules
  | _, [], rules, h => by
      cases h
      exact .nil
  | i, r :: rest, rules, h => by
      unfold rulesFrom at h
      obtain ⟨s, hs, h⟩ := bind_eq_ok_iff.1 h
      obtain ⟨rule, hrule, h⟩ := bind_eq_ok_iff.1 h
      obtain ⟨more, hmore, h⟩ := bind_eq_ok_iff.1 h
      cases h
      exact .cons ⟨_, s, hs, RuleDeclaration.isRule_of_toRule hrule⟩ (forall₂_of_rulesFrom hmore)

/-- **The rules of a section** come from its declarations one by one, and names do not repeat. -/
theorem forall₂_of_rules {scope : String} {declared : Option (List RuleDeclaration)}
    {rules : List QualityRule} (h : context.rules scope declared = .ok rules) :
    ((declared.getD []).filterMap RuleDeclaration.name).Nodup ∧
      List.Forall₂ context.RuleFrom (declared.getD []) rules := by
  unfold LoadContext.rules at h
  obtain ⟨_, hunique, h⟩ := bind_eq_ok_iff.1 h
  exact ⟨checkUnique_eq_ok_iff.1 hunique, forall₂_of_rulesFrom h⟩

end LoadContext

/-! ## Fields -/

namespace FieldShape

/-- The fields inside, none for a scalar. -/
def children : FieldShape → List Field
  | .scalar .. => []
  | .nested _ fields => fields

@[simp] lemma attributes_field (s : FieldShape) (a : FieldAttributes) :
    (s.field a).attributes = a := by
  cases s <;> rfl

@[simp] lemma children_field (s : FieldShape) (a : FieldAttributes) :
    (s.field a).children = s.children := by
  cases s <;> rfl

end FieldShape

namespace LoadContext

/-- `D` is kept when a reference is followed and when fields or items are entered; and `P` holds of
a field that is loaded from a declaration with `D` if it holds of the fields inside of it. -/
structure Keeps (context : LoadContext) (D : FieldDeclaration → Prop) (P : Field → Prop) :
    Prop where
  inline : ∀ {path depth d e}, D d → context.withDefinition path depth d = .ok e → D e
  items : ∀ {d e}, D d → d.items = some e → D e
  fields : ∀ {d : FieldDeclaration}, D d → ∀ e ∈ d.fields, D e.2
  step : ∀ {path name d quality} {f : Field}, D d →
    context.rules path d.keywords.quality = .ok quality →
    f.attributes = d.keywords.attributes name quality →
    (f.children.map Field.name).Nodup → (∀ g ∈ f.children, P g) → P f

namespace Keeps

variable {context : LoadContext} {D : FieldDeclaration → Prop} {P : Field → Prop}

lemma children_nil {shape : FieldShape} (h : shape.children = []) :
    (shape.children.map Field.name).Nodup ∧ ∀ g ∈ shape.children, P g := by
  rw [h]
  exact ⟨List.nodup_nil, fun _ hg => absurd hg List.not_mem_nil⟩

lemma children_nil_of_scalarShape {path w : String} {d : FieldDeclaration} {shape : FieldShape}
    (h : scalarShape path w d = .ok shape) : shape.children = [] := by
  unfold scalarShape at h
  split at h
  · obtain ⟨t, _, h⟩ := bind_eq_ok_iff.1 h
    cases h
    rfl
  · cases h

/-- The induction over all functions that load fields. -/
lemma all (h : context.Keeps D P) :
    (∀ path depth name d, D d → ∀ f, context.field path depth name d = .ok f →
      f.name = name ∧ P f) ∧
    (∀ path depth d, D d → ∀ shape, context.shape path depth d = .ok shape →
      (shape.children.map Field.name).Nodup ∧ ∀ g ∈ shape.children, P g) ∧
    (∀ path depth container keywords fields, (∀ e ∈ fields, D e.2) → ∀ shape,
      context.nestedShape path depth container keywords fields = .ok shape →
        (shape.children.map Field.name).Nodup ∧ ∀ g ∈ shape.children, P g) ∧
    ∀ parent depth fields, (∀ e ∈ fields, D e.2) → ∀ fs,
      context.fieldList parent depth fields = .ok fs →
        (fs.map Field.name).Nodup ∧ ∀ f ∈ fs, P f := by
  apply field.mutual_induct context
  case case1 =>
    intro path depth name d e he _ f hf
    rw [field, he] at hf
    cases hf
  case case2 =>
    intro path depth name d e he ih hd f hf
    rw [field, he] at hf
    obtain ⟨shape, hshape, hf⟩ := bind_eq_ok_iff.1 hf
    obtain ⟨quality, hquality, hf⟩ := bind_eq_ok_iff.1 hf
    cases hf
    have hde : D e := h.inline hd he
    obtain ⟨names, inside⟩ := ih hde shape hshape
    rw [← shape.children_field (e.keywords.attributes name quality)] at names inside
    exact ⟨by simp [Field.name, FieldKeywords.attributes],
      h.step hde hquality (shape.attributes_field _) names inside⟩
  case case3 =>
    intro path depth d word hword hobject ih hd shape hs
    rw [LoadContext.shape] at hs
    exact ih (h.fields hd) shape (by grind)
  case case4 =>
    intro path depth d i hi e he hword hobject hd shape hs
    rw [LoadContext.shape] at hs
    grind
  case case5 =>
    intro path depth d i hi e he heobject hempty hword hobject ih hd shape hs
    rw [LoadContext.shape] at hs
    exact ih (h.fields (h.inline (h.items hd hi) he)) shape (by grind)
  case case6 =>
    intro path depth d i hi e he heobject hempty hword hobject hd shape hs
    rw [LoadContext.shape] at hs
    grind
  case case7 =>
    intro path depth d i hi e he heobject hword hobject ih hd shape hs
    rw [LoadContext.shape] at hs
    exact children_nil (by grind [bind_eq_ok_iff, FieldShape.children])
  case case8 =>
    intro path depth d word hword hobject i hi harray hd shape hs
    rw [LoadContext.shape] at hs
    have hscalar : scalarShape path word d = .ok shape := by grind
    exact children_nil (children_nil_of_scalarShape hscalar)
  case case9 =>
    intro path depth d word hword hobject hi hd shape hs
    rw [LoadContext.shape] at hs
    have hscalar : scalarShape path word d = .ok shape := by grind
    exact children_nil (children_nil_of_scalarShape hscalar)
  case case10 =>
    intro path depth d hword hempty hd shape hs
    rw [LoadContext.shape] at hs
    grind
  case case11 =>
    intro path depth d hword hempty ih hd shape hs
    rw [LoadContext.shape] at hs
    exact ih (h.fields hd) shape (by grind)
  case case12 =>
    intro path depth container keywords fields hkeywords hD shape hs
    simp only [nestedShape, hkeywords, if_true] at hs
    cases hs
  case case13 =>
    intro path depth container keywords fields hkeywords ih hD shape hs
    simp only [nestedShape, hkeywords] at hs
    obtain ⟨fs, hfs, hs⟩ := bind_eq_ok_iff.1 hs
    cases hs
    exact ih hD fs hfs
  case case14 =>
    intro parent depth fields scope ih hD fs hfs
    rw [LoadContext.fieldList] at hfs
    obtain ⟨_, hunique, hfs⟩ := bind_eq_ok_iff.1 hfs
    have loaded := forall₂_of_mapM_eq_ok hfs
    have hnames : fs.map Field.name = fields.map Prod.fst := by
      have hattach : fields.attach.map (fun e => e.1.1) = fields.map Prod.fst :=
        List.attach_map_val
      refine (map_eq_of_forall₂ loaded ?_).trans hattach
      rintro ⟨⟨name, d⟩, hmem⟩ f hf
      exact (ih name d hmem (hD _ hmem) f hf).1
    refine ⟨hnames ▸ checkUnique_eq_ok_iff.1 hunique, fun f hf => ?_⟩
    obtain ⟨⟨⟨name, d⟩, hmem⟩, _, hf⟩ := exists_left_of_forall₂ loaded hf
    exact (ih name d hmem (hD _ hmem) f hf).2

/-- **What is loaded from declarations with `D` has `P`**, and no name repeats in it. -/
theorem fieldList (h : context.Keeps D P) {parent : String} {depth : Nat}
    {fields : List (String × FieldDeclaration)} {fs : List Field} (hD : ∀ e ∈ fields, D e.2)
    (hfs : context.fieldList parent depth fields = .ok fs) :
    (fs.map Field.name).Nodup ∧ ∀ f ∈ fs, P f :=
  h.all.2.2.2 parent depth fields hD fs hfs

end Keeps

/-! ## Models and contracts -/

/-- The model is loaded from the declaration. -/
structure ModelFrom (context : LoadContext) (name : String) (d : ModelDeclaration) (m : Model) :
    Prop where
  name : m.name = name
  fields : ∃ path depth, context.fieldList path depth d.fields = .ok m.fields
  rules : ∃ path, context.rules path d.quality = .ok m.quality

lemma modelFrom_of_model {context : LoadContext} {name : String} {d : ModelDeclaration} {m : Model}
    (h : context.model name d = .ok m) : context.ModelFrom name d m := by
  unfold model at h
  obtain ⟨fields, hfields, h⟩ := bind_eq_ok_iff.1 h
  obtain ⟨quality, hquality, h⟩ := bind_eq_ok_iff.1 h
  cases h
  exact ⟨rfl, ⟨_, _, hfields⟩, ⟨_, hquality⟩⟩

end LoadContext

/-- The server is loaded from the declaration. -/
structure ServerDeclaration.IsServer (name : String) (d : ServerDeclaration) (s : Server) : Prop
    where
  name : s.name = name
  parameters : s.parameters = d.parameters

lemma ServerDeclaration.isServer_of_toServer {name : String} {d : ServerDeclaration} {s : Server}
    (h : d.toServer name = .ok s) : d.IsServer name s := by
  unfold toServer at h
  split at h
  · cases h
  · cases h
    exact ⟨rfl, rfl⟩

/-- The contract is loaded from the declaration, and names of servers and models do not repeat. -/
structure LoadContext.ContractFrom (context : LoadContext) (d : ContractDeclaration)
    (c : Contract) : Prop where
  terms : c.terms = d.terms
  serverNames : (d.servers.map Prod.fst).Nodup
  servers : List.Forall₂ (fun e s => e.2.IsServer e.1 s) d.servers c.servers
  modelNames : (d.models.map Prod.fst).Nodup
  models : List.Forall₂ (fun e m => context.ModelFrom e.1 e.2 m) d.models c.models
  rules : ∃ path, context.rules path d.quality = .ok c.quality

/-- **The parts of a loaded contract come from the parts of its declaration.** -/
theorem Contract.contractFrom_of_ofDeclaration {settings : LoaderSettings} {fetcher : Fetcher}
    {base : Option String} {d : ContractDeclaration} {c : Contract}
    (h : ofDeclaration settings fetcher base d = .ok c) :
    LoadContext.ContractFrom { settings, fetcher, base, definitions := d.definitions } d c := by
  unfold ofDeclaration at h
  obtain ⟨_, hservers, h⟩ := bind_eq_ok_iff.1 h
  obtain ⟨_, hmodels, h⟩ := bind_eq_ok_iff.1 h
  obtain ⟨servers, hs, h⟩ := bind_eq_ok_iff.1 h
  obtain ⟨models, hm, h⟩ := bind_eq_ok_iff.1 h
  obtain ⟨quality, hq, h⟩ := bind_eq_ok_iff.1 h
  cases h
  exact {
    terms := rfl
    serverNames := checkUnique_eq_ok_iff.1 hservers
    servers := (forall₂_of_mapM_eq_ok hs).imp fun _ _ => ServerDeclaration.isServer_of_toServer
    modelNames := checkUnique_eq_ok_iff.1 hmodels
    models := (forall₂_of_mapM_eq_ok hm).imp fun _ _ => LoadContext.modelFrom_of_model
    rules := ⟨_, hq⟩ }

end ContractDrift
