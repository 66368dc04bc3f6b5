import ContractDrift.Proofs.Inlining
import ContractDrift.Proofs.SelfComparison

/-!
# Chains of references

A field refers to a definition, and the definition may refer on.  Of such a chain only the first
link is followed.  The definition adds what is written in it, its own reference is dropped, and what
that leads to is not looked at, be it there or not.

* `FieldDeclaration.Chain` — what a reference stands for if its chain is followed to the end.
* **`Contract.ofDeclaration_first_link`** — the first link of each chain is followed, which is the
  whole chain where the definition has no reference.
-/

namespace ContractDrift

open Yaml (Tree Document Token)

/-- A definition with all that the chain of its references adds to it; what is nearer counts
first. -/
inductive FieldDeclaration.Chain (target : String → FieldDeclaration → Prop) :
    String → FieldDeclaration → Prop where
  | last {r t} (ht : target r t) (h : t.keywords.reference = none) : Chain target r t
  | link {r s t u d} (ht : target r t) (h : t.keywords.reference = some s) (hu : Chain target s u)
      (hmerge : t.Merges u d) : Chain target r d

/-- If references have one definition at most, a chain leads to one end at most. -/
lemma FieldDeclaration.Chain.unique {target : String → FieldDeclaration → Prop}
    (htarget : ∀ r t u, target r t → target r u → t = u) {r : String} {d : FieldDeclaration}
    (h : Chain target r d) : ∀ {e}, Chain target r e → d = e := by
  induction h with
  | last ht h =>
      intro e he
      cases he with
      | last ht' _ => exact htarget _ _ _ ht ht'
      | link ht' h' _ _ =>
          cases htarget _ _ _ ht ht'
          exact nomatch h.symm.trans h'
  | link ht h _ hmerge ih =>
      intro e he
      cases he with
      | last ht' h' =>
          cases htarget _ _ _ ht ht'
          exact nomatch h.symm.trans h'
      | link ht' h' hu hmerge' =>
          cases htarget _ _ _ ht ht'
          cases h.symm.trans h'
          cases ih hu
          exact hmerge.unique hmerge'

variable {settings : LoaderSettings} {fetcher : Fetcher} {base : Option String}
  {c : ContractDeclaration}

namespace Contract

open FieldDeclaration (Chain withoutReference)

/-- **Of a chain of references the first link is followed.**  If a contract is loaded, the reference
of each declaration that comes up was replaced by its definition; and if a reference that comes up
has no definition, nothing is loaded.  Where no definition that is used has a reference, that is
what following the chains gives.  But where one has, its reference is dropped: the result is the
same whatever the definitions refer to. -/
theorem ofDeclaration_first_link (hinline : settings.inlineDefinitions = true) :
    (∀ k, ofDeclaration settings fetcher base c = .ok k →
      ∃ d, c.WrittenOut (c.loadContext settings fetcher base).Target d ∧
        (∀ inline, ofDeclaration { settings with inlineDefinitions := inline } fetcher base d =
          .ok k) ∧
        ((∀ e r t, (c.loadContext settings fetcher base).ComesUp c e →
            e.keywords.reference = some r → (c.loadContext settings fetcher base).Target r t →
            t.keywords.reference = none) →
          c.WrittenOut (Chain (c.loadContext settings fetcher base).Target) d)) ∧
    (∀ e r, (c.loadContext settings fetcher base).ComesUp c e → e.keywords.reference = some r →
      (∀ t, ¬ (c.loadContext settings fetcher base).Target r t) →
      ∃ error, ofDeclaration settings fetcher base c = .error error) ∧
    ∀ fetcher' base' definitions,
      (∀ e r, (c.loadContext settings fetcher base).ComesUp c e → e.keywords.reference = some r →
        ∀ path, ((c.loadContext settings fetcher base).definition path r).map withoutReference =
          (({ c with definitions }.loadContext settings fetcher' base').definition path r).map
            withoutReference) →
      (∀ r, (c.loadContext settings fetcher base).specification r =
        ({ c with definitions }.loadContext settings fetcher' base').specification r) →
      ofDeclaration settings fetcher base c =
        ofDeclaration settings fetcher' base' { c with definitions } := by
  refine ⟨fun k h => ?_, fun e r he hr hnone => ?_, fun _ _ _ => ofDeclaration_definition_congr⟩
  · obtain ⟨d, hd⟩ := exists_writtenOut hinline h
    refine ⟨d, hd, fun inline => (alike_of_writtenOut hinline hd inline).eq_ok h, fun hlast => ?_⟩
    exact hd.mono_of_comesUp hinline fun e r t he hr ht => .last ht (hlast e r t he hr ht)
  · exact LoadContext.exists_error_of_no_target hinline he hr hnone

end Contract

/-! ### A definition that refers on -/

namespace ReferringDefinition

open FieldDeclaration (Chain Filled WrittenOut)
open FieldDocument (block contract modelsTokens treeWith)
open NanMinimum (key treeUnder)

/-- A field by a definition with a type, which refers to a definition with a length. -/
def text : String :=
  "definitions:\n  a:\n    type: text\n    $ref: '#/definitions/b'\n  b:\n    maxLength: 12\n" ++
    "models:\n  m:\n    fields:\n      f:\n        $ref: '#/definitions/a'\n"

/-- The definition that the field refers to. -/
def near : FieldDeclaration where
  keywords := { type := some "text", reference := some "#/definitions/b" }

/-- The definition that the other one refers to. -/
def far : FieldDeclaration where
  keywords := { scalar := { maxLength := some 12 } }

/-- The field. -/
def field : FieldDeclaration where
  keywords := { reference := some "#/definitions/a" }

/-- The document as a declaration. -/
def declaration : ContractDeclaration where
  models := [("m", { fields := [("f", field)] })]
  definitions := [("a", near), ("b", far)]

/-- What is known while the document is loaded. -/
def context : LoadContext := declaration.loadContext {} (.ofDocuments []) none

/-- The document with the definitions written into the field. -/
def followed : ContractDeclaration where
  models := [("m", { fields := [("f", .ofType "text" { maxLength := some 12 })] })]

/-- The tokens of the definitions. -/
def definitionsTokens : List Token :=
  block [("a", block [("type", [.scalar .plain "text"]),
      ("$ref", [.scalar .quoted "#/definitions/b"])]),
    ("b", block [("maxLength", [.scalar .plain "12"])])]

/-- The nearer definition as a tree. -/
def nearTree : Tree :=
  .mapping none [treeUnder "type" (.scalar none .plain "text"),
    treeUnder "$ref" (.scalar none .quoted "#/definitions/b")]

/-- The other definition as a tree. -/
def farTree : Tree := .mapping none [treeUnder "maxLength" (.scalar none .plain "12")]

/-- The field as a tree. -/
def fieldTree : Tree := .mapping none [treeUnder "$ref" (.scalar none .quoted "#/definitions/a")]

set_option maxRecDepth 10000 in
lemma listOf?_text : Token.listOf? text = some (block [("definitions", definitionsTokens),
    ("models", modelsTokens (block [("$ref", [.scalar .quoted "#/definitions/a"])]))]) := by
  rfl

lemma read?_text : Document.read? text =
    some (.root (treeWith [treeUnder "a" nearTree, treeUnder "b" farTree] fieldTree)) := by
  simp only [Document.read?, listOf?_text, Option.bind_eq_bind, Option.bind_some]
  cbv

lemma read?_definitions : namedSlot? .written "definitions" (FieldDeclaration.read? .written)
    [("definitions", .mapping none [treeUnder "a" nearTree, treeUnder "b" farTree])] =
      some [("a", near), ("b", far)] := by
  have hnear : FieldDeclaration.read? .written nearTree = some near := by
    unfold FieldDeclaration.read?
    rfl
  have hfar : FieldDeclaration.read? .written farTree = some far := by
    unfold FieldDeclaration.read?
    rfl
  change ([("a", nearTree), ("b", farTree)].mapM fun e =>
    (FieldDeclaration.read? .written e.2).bind fun d => some (e.1, d)) = _
  simp [List.mapM_cons, hnear, hfar]

lemma read?_declaration : ContractDeclaration.read? text = some declaration :=
  FieldDocument.read?_treeWith read?_text read?_definitions (by unfold FieldDeclaration.read?; rfl)

lemma parse?_word : DataType.parse? (Text.canonical "text") = some .string := by
  decide +kernel

lemma filled_field : Filled context.Target field (.ofType "text") := by
  have ht : context.Target "#/definitions/a" near := LoadContext.target_of_defines ⟨"a", rfl, rfl⟩
  exact .refers rfl ht (FieldDeclaration.merges_iff.2 rfl)

/-- The length is not there. -/
lemma ofDeclaration_declaration : Contract.ofDeclaration {} (.ofDocuments []) none declaration =
    .ok (contract (.plain "f" .string)) := by
  have loaded (path : String) : context.field path 0 "f" field = .ok (.plain "f" .string) := by
    rw [LoadContext.field_of_filled rfl filled_field (by decide)]
    exact LoadContext.field_ofType "f" {} (by decide) parse?_word
  rw [declaration, FieldDocument.ofDeclaration_eq]
  exact congrArg (Except.map contract) (loaded _)

set_option maxRecDepth 10000 in
lemma ofText_text : Contract.ofText {} (.ofDocuments []) text =
    .ok (contract (.plain "f" .string)) := by
  have blank : (Text.trim text).isEmpty = false := by rfl
  rw [Contract.ofText, blank, read?_declaration]
  exact ofDeclaration_declaration

/-- Nothing else comes up than the field. -/
lemma eq_of_comesUp {d : FieldDeclaration} (h : context.ComesUp declaration d) : d = field := by
  obtain ⟨m, hm, x, hx, hd⟩ := h
  cases List.mem_singleton.1 hm
  cases List.mem_singleton.1 hx
  rcases Relation.ReflTransGen.cases_head hd with rfl | ⟨part, ⟨f, hf, hpart⟩, _⟩
  · rfl
  · rw [(LoadContext.inlines_iff_filled rfl).1 hf |>.unique LoadContext.Target.unique filled_field]
      at hpart
    exact absurd hpart List.not_mem_nil

/-- Where the chain is followed the length is there. -/
lemma writtenOut_followed : declaration.WrittenOut (Chain context.Target) followed := by
  have ha : context.Target "#/definitions/a" near := LoadContext.target_of_defines ⟨"a", rfl, rfl⟩
  have hb : context.Target "#/definitions/b" far := LoadContext.target_of_defines ⟨"b", rfl, rfl⟩
  have hchain : Chain context.Target "#/definitions/a" (.ofType "text" { maxLength := some 12 }) :=
    .link ha rfl (.last hb rfl) (FieldDeclaration.merges_iff.2 rfl)
  have hfield : WrittenOut (Chain context.Target) field
      (.ofType "text" { maxLength := some 12 }) :=
    .fields (.refers rfl hchain (FieldDeclaration.merges_iff.2 rfl)) (fun _ => rfl) rfl nofun
  exact ⟨.intro (.cons ⟨rfl, .intro (.cons ⟨rfl, hfield⟩ .nil)⟩ .nil), rfl⟩

lemma ofDeclaration_followed : Contract.ofDeclaration {} (.ofDocuments []) none followed =
    .ok (contract (.scalar { name := "f" } .string { maxLength := some 12 })) := by
  rw [followed, FieldDocument.ofDeclaration_eq,
    LoadContext.field_ofType "f" _ (by decide) parse?_word]
  rfl

end ReferringDefinition

namespace Contract

open FieldDocument (contract)
open ReferringDefinition

/-- The nearer definition is written into the field, and it is the same if the other one is not
there. -/
theorem ofDeclaration_first_link_of_length :
    (∃ d, declaration.WrittenOut context.Target d ∧ ∀ inline,
      ofDeclaration { inlineDefinitions := inline } (.ofDocuments []) none d =
        .ok (contract (.plain "f" .string))) ∧
    ofDeclaration {} (.ofDocuments []) none declaration =
      ofDeclaration {} (.ofDocuments []) none
        { declaration with definitions := [("a", .ofType "text")] } := by
  obtain ⟨hload, _, hsame⟩ := @ofDeclaration_first_link {} (.ofDocuments []) none declaration rfl
  obtain ⟨d, hd, hwritten, _⟩ := hload _ ofDeclaration_declaration
  refine ⟨⟨d, hd, hwritten⟩, hsame _ none _ ?_ fun _ => rfl⟩
  intro e r he hr path
  cases eq_of_comesUp he
  cases hr
  rfl

/-- **Of a chain of references not all is followed**: the document is loaded without the length that
following the chain adds. -/
theorem ofText_drops_reference :
    ∃ c k, ContractDeclaration.read? text = some c ∧
      ofText {} (.ofDocuments []) text = .ok k ∧
      ¬ ∃ d, c.WrittenOut (FieldDeclaration.Chain
          (c.loadContext {} (.ofDocuments []) none).Target) d ∧
        ofDeclaration {} (.ofDocuments []) none d = .ok k := by
  refine ⟨_, _, read?_declaration, ofText_text, ?_⟩
  rintro ⟨d, hd, hload⟩
  rw [hd.unique (fun _ _ _ ht hu => ht.unique LoadContext.Target.unique hu) writtenOut_followed,
    ofDeclaration_followed] at hload
  cases hload

end Contract

end ContractDrift
