import ContractDrift.Proofs.DeclaredFields
import ContractDrift.Proofs.ExactValues
import ContractDrift.Proofs.LoadedValues
import ContractDrift.Proofs.LocalContent

/-!
# Referenced specifications

A rule can keep its specification in another document.  While rules are loaded the content of that
document is put in the place of the reference, at all levels of a contract alike, so that the
comparison sees what the documents say and not what they are called.  Rules of one engine have a
specification for each model, and with these each entry is looked at, and the whole is not.

* `LoadContext.Rulewise`, `ContractDeclaration.Rulewise` — a relation holds between each declared
  rule and the rule it was loaded to, at every level.
* `RuleDeclaration.SpecifiedAt` — the specifications that a rule declares, one or one for each
  model.
* `LoadContext.SpecificationFrom` — those of the loaded rule: the content of the documents that are
  referred to, and else what was declared.
* **`Contract.specifications_from_references`** — every rule of a loaded contract has these, and
  contents that differ make the parameters differ.
* **`Contract.ofText_keeps_reference`** — a reference in the place of the entries is kept, and what
  it refers to makes no difference.
-/

namespace ContractDrift

open Yaml (Tree Document Token)

/-! ## The rules of all levels -/

namespace LoadContext

variable {context : LoadContext} {S : RuleDeclaration → QualityRule → Prop}

/-- The relation holds between the declared rules of a field, when its reference has been followed,
and the loaded ones, one by one, and so on for the fields inside. -/
inductive Rulewise (context : LoadContext) (S : RuleDeclaration → QualityRule → Prop) :
    String × FieldDeclaration → Field → Prop
  | intro {name : String} {d e : FieldDeclaration} {f : Field}
      {members : List (String × FieldDeclaration)} (inlined : context.Inlines d e)
      (hname : f.name = name)
      (rules : List.Forall₂ S (e.keywords.quality.getD []) f.attributes.quality)
      (hmembers : context.HasMembers e members)
      (inside : List.Forall₂ (Rulewise context S) members f.children) :
      Rulewise context S (name, d) f

/-- **A relation that holds in every section holds in all sections of a field.** -/
theorem rulewise_of_loads
    (hS : ∀ scope declared rules, context.rules scope declared = .ok rules →
      List.Forall₂ S (declared.getD []) rules) (f : Field) :
    ∀ x, context.Loads x f → context.Rulewise S x f := by
  induction f using Field.induction_on_children with
  | step f ih =>
      rintro ⟨name, d⟩ hload
      obtain ⟨e, he⟩ := fieldFrom_of_loads hload
      obtain ⟨scope, quality, hquality, hattributes⟩ := he.attributes
      obtain ⟨members, hmembers, inside⟩ := he.contents.members
      refine .intro he.inlined he.name_eq ?_ hmembers ?_
      · rw [hattributes]
        exact hS _ _ _ hquality
      · refine ((List.forall₂_and_left _ _).2 ⟨ih, inside.flip⟩).flip.imp ?_
        rintro x g ⟨hg, hx⟩
        exact hg x hx

end LoadContext

/-- The relation holds between each declared rule of a contract and the loaded one, at every level:
the rules of the contract, of its models, and of their fields. -/
structure ContractDeclaration.Rulewise (c : ContractDeclaration) (context : LoadContext)
    (S : RuleDeclaration → QualityRule → Prop) (k : Contract) : Prop where
  rules : List.Forall₂ S (c.quality.getD []) k.quality
  models : List.Forall₂ (fun e m => m.name = e.1 ∧ List.Forall₂ S (e.2.quality.getD []) m.quality ∧
    List.Forall₂ (context.Rulewise S) e.2.fields m.fields) c.models k.models

/-- **A relation that holds in every section holds in all sections of a contract.** -/
theorem Contract.rulewise_of_ofDeclaration {settings : LoaderSettings} {fetcher : Fetcher}
    {base : Option String} {c : ContractDeclaration} {k : Contract}
    (h : ofDeclaration settings fetcher base c = .ok k)
    {S : RuleDeclaration → QualityRule → Prop}
    (hS : ∀ scope declared rules,
      (c.loadContext settings fetcher base).rules scope declared = .ok rules →
        List.Forall₂ S (declared.getD []) rules) :
    c.Rulewise (c.loadContext settings fetcher base) S k := by
  have source := contractFrom_of_ofDeclaration h
  obtain ⟨scope, hrules⟩ := source.rules
  refine ⟨hS _ _ _ hrules, source.models.imp fun e m hm => ?_⟩
  obtain ⟨scope, hrules⟩ := hm.rules
  have inside := hm.forall₂_loads.imp fun x f => LoadContext.rulewise_of_loads hS f x
  exact ⟨hm.name, hS _ _ _ hrules, inside⟩

/-! ## Specifications -/

/-- The document that a value refers to. -/
def Json.reference? (v : Json) : Option String := (v.get? "$ref").bind text?

/-- The value of the text of a document, if it has one. -/
def documentValue? (text : String) : Option Json :=
  match Document.read? text with
  | none => none
  | some .empty => some .null
  | some (.root t) => t.json? .written

/-- What a text says: the value of the document in it, or the text itself. -/
def contentOf (text : String) : Json := (documentValue? text).getD (.text text)

/-- A specification of a rule: the whole, or that of a model for rules with one for each model. -/
inductive RuleDeclaration.SpecifiedAt (r : RuleDeclaration) : Option String → Json → Prop
  | whole {v : Json} (hv : r.parameters.get? "specification" = some v)
      (h : r.isPerModel = true → ∀ entries, v ≠ .object entries) : SpecifiedAt r none v
  | model {entries : List (String × Json)} {name : String} {v : Json} (h : r.isPerModel = true)
      (hentries : r.parameters.get? "specification" = some (.object entries))
      (hv : lookupEntry name entries = some v) : SpecifiedAt r (some name) v

/-- A specification of a loaded rule: the whole, or that of a model. -/
def QualityRule.specificationAt? (rule : QualityRule) : Option String → Option Json
  | none => rule.parameters.get? "specification"
  | some model => (rule.parameters.get? "specification").bind (Json.get? model)

/-- What is added to the parameters of a rule is its engine and its unit. -/
lemma RuleDeclaration.IsRule.get?_parameters {r : RuleDeclaration} {path : String}
    {rule : QualityRule} (h : r.IsRule path rule) {key : String} (hengine : "engine" ≠ key)
    (hunit : "unit" ≠ key) : rule.parameters.get? key = r.parameters.get? key := by
  obtain ⟨kind, parameters, hkind, hrule⟩ := h.parameters
  have hparameters : parameters.get? key = r.parameters.get? key := by
    rcases parameters_of_kind hkind with rfl | ⟨engine, rfl⟩
    · rfl
    · rw [Entries.get?_insert, if_neg hengine]
  rw [← hparameters]
  rcases hrule with hrule | ⟨unit, hrule⟩
  · rw [hrule]
  · rw [hrule, Entries.get?_insert, if_neg hunit]

namespace LoadContext

variable {context : LoadContext} {r : RuleDeclaration} {rule : QualityRule}

/-- The loaded rule has the content of the document where a declared specification refers to one,
and the specification as it is where it does not. -/
structure SpecificationFrom (context : LoadContext) (r : RuleDeclaration) (rule : QualityRule) :
    Prop where
  content : ∀ place v reference, r.SpecifiedAt place v → v.reference? = some reference →
    ∃ text, context.fetcher.fetchReference reference context.base = .ok text ∧
      rule.specificationAt? place = some (contentOf text)
  kept : ∀ place v, r.SpecifiedAt place v → v.reference? = none →
    rule.specificationAt? place = some v

lemma specification_eq (reference : String) : context.specification reference =
    (context.fetcher.fetchReference reference context.base).map contentOf := by
  unfold specification
  cases context.fetcher.fetchReference reference context.base with
  | error e => rfl
  | ok text =>
      refine (bind_eq_of_ok rfl).trans ?_
      change _ = Except.ok (contentOf text)
      rw [contentOf, documentValue?]
      cases Document.read? text with
      | none => rfl
      | some document => cases document <;> rfl

lemma exists_of_inlined {v w : Json} {reference : String} (h : context.inlined v = .ok w)
    (hv : v.reference? = some reference) :
    ∃ text, context.fetcher.fetchReference reference context.base = .ok text ∧
      w = contentOf text := by
  rw [Json.reference?] at hv
  rw [inlined, hv] at h
  change context.specification reference = .ok w at h
  rw [specification_eq] at h
  cases hfetch : context.fetcher.fetchReference reference context.base with
  | error e => rw [hfetch] at h; cases h
  | ok text => rw [hfetch] at h; cases h; exact ⟨text, rfl, rfl⟩

lemma eq_of_inlined {v w : Json} (h : context.inlined v = .ok w) (hv : v.reference? = none) :
    w = v := by
  rw [Json.reference?] at hv
  rw [inlined, hv] at h
  cases h
  rfl

/-- In an object whose values are inlined each key keeps its place. -/
lemma exists_lookupEntry_of_inlined {name : String} {v : Json}
    {entries loaded : List (String × Json)} (h : List.Forall₂ (fun e e' => (do
      let w ← context.inlined e.2
      .ok (e.1, w)) = .ok e') entries loaded) (hv : lookupEntry name entries = some v) :
    ∃ w, context.inlined v = .ok w ∧ lookupEntry name loaded = some w := by
  induction h with
  | nil => cases hv
  | @cons e e' entries loaded he _ ih =>
      obtain ⟨w, hw, he⟩ := bind_eq_ok_iff.1 he
      cases he
      unfold lookupEntry at hv ⊢
      split at hv
      · cases hv
        exact ⟨w, hw, by simp_all⟩
      · obtain ⟨u, hu, hlookup⟩ := ih hv
        exact ⟨u, hu, by simp_all⟩

/-- Where specifications are inlined, each one of the declared rule is, and comes to its place. -/
lemma RuleFrom.exists_inlined (hinline : context.settings.inlineQuality = true)
    (h : context.RuleFrom r rule) {place : Option String} {v : Json} (hv : r.SpecifiedAt place v) :
    ∃ w, context.inlined v = .ok w ∧ rule.specificationAt? place = some w := by
  obtain ⟨path, s, hs, hrule⟩ := h
  have hparameter : rule.parameters.get? "specification" = s.parameters.get? "specification" :=
    hrule.get?_parameters (by decide) (by decide)
  unfold withSpecification at hs
  cases hv with
  | @whole v hv hnot =>
      simp only [hv, hinline, if_true] at hs
      obtain ⟨w, hw, hs⟩ := bind_eq_ok_iff.1 hs
      cases hs
      refine ⟨w, ?_, ?_⟩
      · unfold inlinedSpecification at hw
        split at hw
        · rename_i hperModel
          exact absurd rfl (hnot hperModel _)
        · exact hw
      · rw [QualityRule.specificationAt?, hparameter, Entries.get?_insert, if_pos rfl]
  | @model entries name v hperModel hentries hv =>
      simp only [hentries, hinline, if_true, hperModel, inlinedSpecification] at hs
      obtain ⟨w, hw, hs⟩ := bind_eq_ok_iff.1 hs
      cases hs
      obtain ⟨loaded, hloaded, hw⟩ := bind_eq_ok_iff.1 hw
      cases hw
      obtain ⟨u, hu, hlookup⟩ :=
        exists_lookupEntry_of_inlined (forall₂_of_mapM_eq_ok hloaded) hv
      refine ⟨u, hu, ?_⟩
      rw [QualityRule.specificationAt?, hparameter, Entries.get?_insert, if_pos rfl]
      exact hlookup

/-- **A rule that is loaded with inlining has the content of what it refers to.** -/
theorem RuleFrom.specificationFrom (hinline : context.settings.inlineQuality = true)
    (h : context.RuleFrom r rule) : context.SpecificationFrom r rule where
  content := by
    intro place v reference hv hreference
    obtain ⟨w, hw, hplace⟩ := h.exists_inlined hinline hv
    obtain ⟨text, htext, rfl⟩ := exists_of_inlined hw hreference
    exact ⟨text, htext, hplace⟩
  kept := by
    intro place v hv hreference
    obtain ⟨w, hw, hplace⟩ := h.exists_inlined hinline hv
    rw [hplace, eq_of_inlined hw hreference]

/-- A specification of the declared rule refers to a document with this text. -/
def FindsAt (context : LoadContext) (r : RuleDeclaration) (place : Option String) (text : String) :
    Prop :=
  ∃ v reference, r.SpecifiedAt place v ∧ v.reference? = some reference ∧
    context.fetcher.fetchReference reference context.base = .ok text

lemma SpecificationFrom.of_findsAt (h : context.SpecificationFrom r rule) {place : Option String}
    {text : String} (hfinds : context.FindsAt r place text) :
    rule.specificationAt? place = some (contentOf text) := by
  obtain ⟨v, reference, hv, hreference, htext⟩ := hfinds
  obtain ⟨text', htext', hplace⟩ := h.content place v reference hv hreference
  rw [htext] at htext'
  cases htext'
  exact hplace

end LoadContext

/-- Only an object has a value under a key. -/
lemma Json.get?_eq_some_iff {key : String} {v w : Json} :
    v.get? key = some w ↔ ∃ entries, v = .object entries ∧ lookupEntry key entries = some w := by
  cases v <;> simp [get?]

/-- Specifications that are not equal by numbers are not in parameters that are. -/
lemma QualityRule.not_rel_of_specificationAt? {rule rule' : QualityRule} {place : Option String}
    {v w : Json} (hv : rule.specificationAt? place = some v)
    (hw : rule'.specificationAt? place = some w) (hne : ¬ v.EqualBy Json.nearestNumber? w) :
    ¬ Option.Rel (Json.EqualBy Json.nearestNumber?) (rule.parameters.get? "specification")
      (rule'.parameters.get? "specification") := by
  intro hrel
  cases place with
  | none =>
      change rule.parameters.get? "specification" = some v at hv
      change rule'.parameters.get? "specification" = some w at hw
      rw [hv, hw] at hrel
      cases hrel with
      | some h => exact hne h
  | some model =>
      obtain ⟨x, hx, hxv⟩ := Option.bind_eq_some_iff.1 hv
      obtain ⟨y, hy, hyw⟩ := Option.bind_eq_some_iff.1 hw
      rw [hx, hy] at hrel
      obtain ⟨a, rfl, hav⟩ := Json.get?_eq_some_iff.1 hxv
      obtain ⟨b, rfl, hbw⟩ := Json.get?_eq_some_iff.1 hyw
      cases hrel with
      | some h =>
          cases h with
          | object keys values => exact hne (values model v w hav hbw)
          | number hx hy => cases hx

namespace Contract

variable {settings settings' : LoaderSettings} {fetcher fetcher' : Fetcher}
  {base base' : Option String} {c d : ContractDeclaration} {old new : Contract}

/-- **Specifications are what references lead to.**  In a contract that is loaded with inlining each
rule, at every level and of every type, has the content of the document in the place of each of its
specifications that refers to one, and the other ones as they are.  So of two rules of two
contracts, both with a reference in the same place, the parameters differ if the contents do, and if
both rules have one path this is listed as a change, unless the contents differ only in ways to
write the same number. -/
theorem specifications_from_references
    (hold : ofDeclaration settings fetcher base c = .ok old)
    (hnew : ofDeclaration settings' fetcher' base' d = .ok new)
    (hinline : settings.inlineQuality = true) (hinline' : settings'.inlineQuality = true) :
    let before := c.loadContext settings fetcher base
    let after := d.loadContext settings' fetcher' base'
    c.Rulewise before (fun r rule => before.RuleFrom r rule ∧ before.SpecificationFrom r rule)
      old ∧
    d.Rulewise after (fun r rule => after.RuleFrom r rule ∧ after.SpecificationFrom r rule) new ∧
    ∀ r r' rule rule' place text text', before.RuleFrom r rule → after.RuleFrom r' rule' →
      before.FindsAt r place text → after.FindsAt r' place text' →
      (contentOf text ≠ contentOf text' → rule.parameters ≠ rule'.parameters) ∧
      (¬ (contentOf text).EqualBy Json.nearestNumber? (contentOf text') → ∀ p,
        old.index.get? p = some (.quality rule) → new.index.get? p = some (.quality rule') →
        .modified p .parameters (.quality rule) (.quality rule') ∈ (old.compare new).changes) := by
  intro before after
  have inlined {context : LoadContext} (hcontext : context.settings.inlineQuality = true) :
      ∀ scope declared rules, context.rules scope declared = .ok rules →
        List.Forall₂ (fun r rule => context.RuleFrom r rule ∧ context.SpecificationFrom r rule)
          (declared.getD []) rules := by
    intro scope declared rules hrules
    exact (LoadContext.forall₂_of_rules hrules).2.imp fun r rule h =>
      ⟨h, h.specificationFrom hcontext⟩
  refine ⟨rulewise_of_ofDeclaration hold (inlined hinline),
    rulewise_of_ofDeclaration hnew (inlined hinline'), ?_⟩
  intro r r' rule rule' place text text' hrule hrule' hfinds hfinds'
  have hplace := (hrule.specificationFrom hinline).of_findsAt hfinds
  have hplace' := (hrule'.specificationFrom hinline').of_findsAt hfinds'
  refine ⟨fun hne hparameters => hne ?_, fun hne p hp hp' => ?_⟩
  · have hsame : rule.specificationAt? place = rule'.specificationAt? place := by
      cases place <;> simp [QualityRule.specificationAt?, hparameters]
    exact Option.some.inj (hplace.symm.trans (hsame.trans hplace'))
  · have hvalue : ¬ Option.Rel (Json.EqualBy Json.nearestNumber?)
        ((Node.quality rule).freeValue? "specification" .parameters)
        ((Node.quality rule').freeValue? "specification" .parameters) :=
      QualityRule.not_rel_of_specificationAt? hplace hplace' hne
    exact modified_of_freeValue? hp hp' hvalue

end Contract

/-! ### A check file -/

namespace CheckFile

open FieldDocument (block)
open NanMinimum (treeUnder)

/-- A document with one rule, of an engine that has one specification for each model. -/
def text : String :=
  "quality:\n  type: great-expectations\n  specification:\n    $ref: http://h/c.yaml\n"

/-- The reference to the check file. -/
def reference : Json := .object [("$ref", .text "http://h/c.yaml")]

/-- A rule of an engine with its specification in the check file. -/
def declared (engine : String) : RuleDeclaration where
  type := some engine
  parameters := .ofList [("specification", reference)]

/-- A contract with this rule. -/
def declaration (engine : String) : ContractDeclaration where
  quality := some [declared engine]

/-- A rule with its specification. -/
def rule (engine : String) (specification : Json) : QualityRule where
  kind := .custom
  parameters := (Entries.ofList [("specification", specification)]).insert "engine" (.text engine)

/-- A contract with this rule. -/
def contract (engine : String) (specification : Json) : Contract where
  toIdentity := (declaration engine).identity
  quality := [rule engine specification]

/-- The check file with a text. -/
def documents (text : String) : Fetcher := .ofDocuments [("http://h/c.yaml", text)]

/-- A number of rows. -/
def rows (n : Int) : Json := .object [("rows", .int n)]

lemma not_equalBy_rows : ¬ (rows 1).EqualBy Json.nearestNumber? (rows 2) := by
  intro h
  cases h with
  | object keys values =>
      have hvalue := values "rows" (.int 1) (.int 2) rfl rfl
      have hsame : (Json.int 1).same (.int 2) = true :=
        Json.same_of_equalBy hvalue (Json.everywhere_int.2 rfl) (Json.everywhere_int.2 rfl)
      exact absurd hsame (by decide +kernel)
  | number hv hw => cases hv

/-- The document in a check file. -/
def rowsTree (n : String) : Tree :=
  .mapping none [(.scalar none .plain "rows", .scalar none .plain n)]

lemma read?_rows {text n : String}
    (h : Token.listOf? text = some (block [("rows", [.scalar .plain n])])) :
    Document.read? text = some (.root (rowsTree n)) := by
  simp only [Document.read?, h, Option.bind_eq_bind, Option.bind_some]
  cbv

lemma contentOf_one : contentOf "rows: 1" = rows 1 := by
  rw [contentOf, documentValue?, read?_rows (n := "1") rfl]
  rfl

lemma contentOf_two : contentOf "rows: 2" = rows 2 := by
  rw [contentOf, documentValue?, read?_rows (n := "2") rfl]
  rfl

lemma fetchReference_documents (text : String) :
    (documents text).fetchReference "http://h/c.yaml" none = .ok text := by
  have remote : isRemote "http://h/c.yaml" = true := by rfl
  rw [documents, Fetcher.ofDocuments, Fetcher.fetchReference_byLocation, remote]
  rfl

/-- The content of the check file comes into the parameters. -/
lemma ofDeclaration_soda (text : String) :
    Contract.ofDeclaration {} (documents text) none (declaration "soda") =
      .ok (contract "soda" (contentOf text)) := by
  have hinlined (context : LoadContext) (hcontext : context.specification "http://h/c.yaml" =
      .ok (contentOf text)) (hinline : context.settings.inlineQuality = true) :
      context.withSpecification (declared "soda") = .ok { declared "soda" with
        parameters := .ofList [("specification", contentOf text)] } := by
    change (if context.settings.inlineQuality then
      (context.specification "http://h/c.yaml" >>= fun w => _) else _) = _
    rw [if_pos hinline, hcontext]
    rfl
  have hspecification : LoadContext.specification
      ⟨{}, documents text, none, []⟩ "http://h/c.yaml" = .ok (contentOf text) := by
    rw [LoadContext.specification_eq, fetchReference_documents]
    rfl
  change (((LoadContext.withSpecification ⟨{}, documents text, none, []⟩ (declared "soda")) >>=
    _) >>= _) = _
  rw [hinlined _ hspecification rfl]
  generalize contentOf text = content
  rfl

/-- The reference stays in the parameters. -/
lemma ofDeclaration_expectations (text : String) :
    Contract.ofDeclaration {} (documents text) none (declaration "great-expectations") =
      .ok (contract "great-expectations" reference) := by
  rfl

/-- The document as a tree. -/
def tree : Tree :=
  .mapping none [treeUnder "quality" (.mapping none [
    treeUnder "type" (.scalar none .plain "great-expectations"),
    treeUnder "specification" (.mapping none [
      treeUnder "$ref" (.scalar none .plain "http://h/c.yaml")])])]

set_option maxRecDepth 10000 in
lemma listOf?_text : Token.listOf? text = some (block [("quality",
    block [("type", [.scalar .plain "great-expectations"]),
      ("specification", block [("$ref", [.scalar .plain "http://h/c.yaml"])])])]) := by
  rfl

lemma read?_text : Document.read? text = some (.root tree) := by
  simp only [Document.read?, listOf?_text, Option.bind_eq_bind, Option.bind_some]
  cbv

lemma read?_declaration :
    ContractDeclaration.read? text = some (declaration "great-expectations") := by
  rw [ContractDeclaration.read?, read?_text]
  rfl

end CheckFile

namespace Contract

open CheckFile

/-- A check file that asks for another number of rows is a change of the rule that refers to it. -/
theorem specifications_from_references_of_rows :
    ofDeclaration {} (documents "rows: 1") none (declaration "soda") =
        .ok (contract "soda" (rows 1)) ∧
      ofDeclaration {} (documents "rows: 2") none (declaration "soda") =
        .ok (contract "soda" (rows 2)) ∧
      .modified ["quality", "custom", "0"] .parameters (.quality (rule "soda" (rows 1)))
        (.quality (rule "soda" (rows 2))) ∈
          ((contract "soda" (rows 1)).compare (contract "soda" (rows 2))).changes := by
  have one := ofDeclaration_soda "rows: 1"
  have two := ofDeclaration_soda "rows: 2"
  rw [contentOf_one] at one
  rw [contentOf_two] at two
  obtain ⟨rulewise, rulewise', differ⟩ := specifications_from_references one two rfl rfl
  have finds (text : String) : LoadContext.FindsAt
      ((declaration "soda").loadContext {} (documents text) none) (declared "soda") none text :=
    ⟨reference, _, .whole rfl (fun h => absurd h (by decide)), rfl, fetchReference_documents text⟩
  cases rulewise.rules with
  | cons h _ =>
      cases rulewise'.rules with
      | cons h' _ =>
          obtain ⟨_, listed⟩ := differ _ _ _ _ _ _ _ h.1 h'.1 (finds _) (finds _)
          refine ⟨one, two, listed ?_ _ ?_ ?_⟩
          · rw [contentOf_one, contentOf_two]
            exact not_equalBy_rows
          · rfl
          · rfl

/-- **A reference that stands where the entries for models are expected is kept as it is**, whatever
the check file says: the rule never has its content, and an edit of the check file is not seen. -/
theorem ofText_keeps_reference :
    ContractDeclaration.read? text = some (declaration "great-expectations") ∧
    (declared "great-expectations").parameters.get? "specification" = some reference ∧
    reference.reference? = some "http://h/c.yaml" ∧
    (∀ content, (documents content).fetchReference "http://h/c.yaml" none = .ok content) ∧
    (∀ content, ofText {} (documents content) text =
      .ok (contract "great-expectations" reference)) ∧
    (rule "great-expectations" reference).parameters.get? "specification" = some reference ∧
    contentOf "rows: 1" ≠ reference ∧ contentOf "rows: 1" ≠ contentOf "rows: 2" := by
  have blank : (Text.trim text).isEmpty = false := by rfl
  refine ⟨read?_declaration, rfl, rfl, fetchReference_documents, fun content => ?_, rfl, ?_, ?_⟩
  · rw [ofText, blank, read?_declaration]
    exact ofDeclaration_expectations content
  · rw [contentOf_one]
    simp [rows, reference]
  · rw [contentOf_one, contentOf_two]
    simp [rows]

end Contract

end ContractDrift
