import ContractDrift.Proofs.Inlining
import ContractDrift.Proofs.LocalContent

/-!
# The scope of references

A definition that is fetched from another document may have fields and items with references, and
`#/definitions/…` in these looks like a definition of the document that they are written in.  But
one set of definitions serves all references, that of the contract.  So a reference inside of a
fetched definition is captured: it gets the contract's definition of this name, and nothing is
loaded if the contract has none, even if the other document has one.

* `LoadContext.ComesFrom` — what is loaded from inside of a definition of another document;
  `LoadContext.DefinedAt` — the definitions of that document.
* `LoadContext.inlines_local_of_ofDeclaration` — a local reference that comes up gets the definition
  of the contract.
* **`Contract.ofDeclaration_captures`** — so do those in other documents, of which nothing matters
  but the definitions that the contract refers to.
-/

namespace ContractDrift

open Yaml (Tree Document Token)

/-- The declaration is written inside of the other one, among its fields or items at any depth. -/
def FieldDeclaration.Inside (whole d : FieldDeclaration) : Prop :=
  Relation.TransGen (fun f part => part ∈ f.parts) whole d

variable {settings : LoaderSettings} {fetcher : Fetcher} {base : Option String}
  {c : ContractDeclaration}

namespace LoadContext

open FieldDeclaration (Filled)

/-- The declaration is written inside of a definition of the document at a location, and comes up
where a field or item of the contract refers to this definition. -/
def ComesFrom (context : LoadContext) (c : ContractDeclaration) (location : String)
    (d : FieldDeclaration) : Prop :=
  ∃ e r steps t, context.ComesUp c e ∧ e.keywords.reference = some r ∧
    Reference.ofText r = .external location steps ∧ context.Target r t ∧ t.Inside d ∧
    Relation.TransGen context.HasPart e d

/-- The document at a location has a definition of this name. -/
def DefinedAt (context : LoadContext) (location name : String) (t : FieldDeclaration) : Prop :=
  ∃ text document part, context.fetcher.fetchReference location context.base = .ok text ∧
    dataTree? text = some document ∧ document.follow? ["definitions", name] = some part ∧
    FieldDeclaration.read? .typed part = some t

lemma ComesFrom.comesUp {context : LoadContext} {location : String} {d : FieldDeclaration}
    (h : context.ComesFrom c location d) : context.ComesUp c d := by
  obtain ⟨e, _, _, _, ⟨m, hm, x, hx, he⟩, _, _, _, _, hd⟩ := h
  exact ⟨m, hm, x, hx, he.trans hd.to_reflTransGen⟩

/-- In a loaded contract a local reference that comes up has the definition of the contract. -/
lemma inlines_local_of_ofDeclaration {k : Contract} (hinline : settings.inlineDefinitions = true)
    (h : Contract.ofDeclaration settings fetcher base c = .ok k) {d : FieldDeclaration}
    {name : String} (hd : (c.loadContext settings fetcher base).ComesUp c d)
    (hr : d.keywords.reference = some ("#/definitions/" ++ name)) :
    ∃ t e, c.Defines ("#/definitions/" ++ name) t ∧ d.Merges t e ∧
      (c.loadContext settings fetcher base).Inlines d e := by
  obtain ⟨t, e, ht, hmerge, hinlines⟩ := exists_target_of_ofDeclaration hinline h hd hr
  exact ⟨t, e, defines_of_target ht, hmerge, hinlines⟩

end LoadContext

namespace Contract

/-- **A reference inside of a fetched definition is captured by the contract.**  If the contract is
loaded, a local reference that comes from another document was replaced by the contract's definition
of this name, and by the other document's own definition of this name only if that adds the same.
If the contract has no such definition, nothing is loaded.  And what else the other documents define
does not matter: the result is the same as long as the references that come up have the same
definitions. -/
theorem ofDeclaration_captures (hinline : settings.inlineDefinitions = true) :
    (∀ location d name, (c.loadContext settings fetcher base).ComesFrom c location d →
      d.keywords.reference = some ("#/definitions/" ++ name) →
      (∀ k, ofDeclaration settings fetcher base c = .ok k →
        ∃ t e, c.Defines ("#/definitions/" ++ name) t ∧ d.Merges t e ∧
          (c.loadContext settings fetcher base).Inlines d e ∧
          ∀ u e', (c.loadContext settings fetcher base).DefinedAt location name u →
            d.Merges u e' → ((c.loadContext settings fetcher base).Inlines d e' ↔ e' = e)) ∧
      ((∀ t, ¬ c.Defines ("#/definitions/" ++ name) t) →
        ∃ error, ofDeclaration settings fetcher base c = .error error)) ∧
    ∀ fetcher' base',
      (∀ d r, (c.loadContext settings fetcher base).ComesUp c d → d.keywords.reference = some r →
        ∀ path, (c.loadContext settings fetcher base).definition path r =
          (c.loadContext settings fetcher' base').definition path r) →
      (∀ r, (c.loadContext settings fetcher base).specification r =
        (c.loadContext settings fetcher' base').specification r) →
      ofDeclaration settings fetcher base c = ofDeclaration settings fetcher' base' c := by
  refine ⟨fun location d name hfrom hr => ⟨fun k h => ?_, fun hnone => ?_⟩, fun _ _ h => ?_⟩
  · obtain ⟨t, e, ht, hmerge, hd⟩ :=
      LoadContext.inlines_local_of_ofDeclaration hinline h hfrom.comesUp hr
    exact ⟨t, e, ht, hmerge, hd, fun u e' _ _ => ⟨fun hu => hu.unique hd, fun heq => heq ▸ hd⟩⟩
  · refine LoadContext.exists_error_of_no_target hinline hfrom.comesUp hr fun t ht => ?_
    exact hnone t (LoadContext.defines_of_target ht)
  · exact ofDeclaration_definition_congr fun d r hd hr path => by rw [h d r hd hr path]

end Contract

/-! ### A name in two documents -/

namespace CapturedReference

open FieldDeclaration (Filled)
open FieldDocument (block contract modelsTokens treeWith)
open NanMinimum (treeUnder)

/-- A contract with a field by a definition in another document. -/
def text : String :=
  "definitions:\n  loc:\n    type: bytes\n" ++
    "models:\n  m:\n    fields:\n      f:\n        $ref: 'http://h/d.yaml#/o'\n"

/-- The other document. -/
def otherText : String :=
  "definitions:\n  loc:\n    type: int\n" ++
    "o:\n  type: object\n  fields:\n    a:\n      $ref: '#/definitions/loc'\n"

/-- The fetcher of the other document. -/
def documents : Fetcher := .ofDocuments [("http://h/d.yaml", otherText)]

/-- The field of the contract. -/
def field : FieldDeclaration where
  keywords := { reference := some "http://h/d.yaml#/o" }

/-- The field of the definition in the other document. -/
def inner : FieldDeclaration where
  keywords := { reference := some "#/definitions/loc" }

/-- The definition in the other document. -/
def outer : FieldDeclaration where
  keywords := { type := some "object" }
  fields := [("a", inner)]

/-- The contract as a declaration. -/
def declaration : ContractDeclaration where
  models := [("m", { fields := [("f", field)] })]
  definitions := [("loc", .ofType "bytes")]

/-- What is known while the contract is loaded. -/
def context : LoadContext := declaration.loadContext {} documents none

/-- A field or a definition with a type as a tree. -/
def typeTree (word : String) : Tree := .mapping none [treeUnder "type" (.scalar none .plain word)]

/-- A field by a definition as a tree. -/
def referenceTree (r : String) : Tree := .mapping none [treeUnder "$ref" (.scalar none .quoted r)]

/-- The definition in the other document as a tree. -/
def outerTree : Tree :=
  .mapping none [treeUnder "type" (.scalar none .plain "object"),
    treeUnder "fields" (.mapping none [treeUnder "a" (referenceTree "#/definitions/loc")])]

/-- The other document as a tree. -/
def otherTree : Tree :=
  .mapping none [treeUnder "definitions" (.mapping none [treeUnder "loc" (typeTree "int")]),
    treeUnder "o" outerTree]

set_option maxRecDepth 10000 in
lemma listOf?_text : Token.listOf? text = some (block [
    ("definitions", block [("loc", block [("type", [.scalar .plain "bytes"])])]),
    ("models", modelsTokens (block [("$ref", [.scalar .quoted "http://h/d.yaml#/o"])]))]) := by
  rfl

set_option maxRecDepth 10000 in
lemma listOf?_otherText : Token.listOf? otherText = some (block [
    ("definitions", block [("loc", block [("type", [.scalar .plain "int"])])]),
    ("o", block [("type", [.scalar .plain "object"]),
      ("fields", block [("a", block [("$ref", [.scalar .quoted "#/definitions/loc"])])])])]) := by
  rfl

lemma read?_text : Document.read? text = some (.root
    (treeWith [treeUnder "loc" (typeTree "bytes")] (referenceTree "http://h/d.yaml#/o"))) := by
  simp only [Document.read?, listOf?_text, Option.bind_eq_bind, Option.bind_some]
  cbv

lemma read?_otherText : Document.read? otherText = some (.root otherTree) := by
  simp only [Document.read?, listOf?_otherText, Option.bind_eq_bind, Option.bind_some]
  cbv

lemma read?_definitions : namedSlot? .written "definitions" (FieldDeclaration.read? .written)
    [("definitions", .mapping none [treeUnder "loc" (typeTree "bytes")])] =
      some [("loc", .ofType "bytes")] := by
  have hread : FieldDeclaration.read? .written (typeTree "bytes") = some (.ofType "bytes") := by
    unfold FieldDeclaration.read?
    rfl
  change ((FieldDeclaration.read? .written (typeTree "bytes")).bind fun a => some ("loc", a)).bind
    (fun a => some [a]) = _
  rw [hread]
  rfl

lemma read?_declaration : ContractDeclaration.read? text = some declaration :=
  FieldDocument.read?_treeWith read?_text read?_definitions (by unfold FieldDeclaration.read?; rfl)

lemma read?_outerTree : FieldDeclaration.read? .typed outerTree = some outer := by
  have hinner : FieldDeclaration.read? .typed (referenceTree "#/definitions/loc") =
      some inner := by
    unfold FieldDeclaration.read?
    rfl
  unfold FieldDeclaration.read?
  change (((FieldDeclaration.read? .typed (referenceTree "#/definitions/loc")).bind _).bind _).bind
    _ = _
  rw [hinner]
  rfl

lemma fetchReference_other :
    documents.fetchReference "http://h/d.yaml" none = .ok otherText := by
  have remote : isRemote "http://h/d.yaml" = true := by rfl
  rw [documents, Fetcher.ofDocuments, Fetcher.fetchReference_byLocation, remote]
  rfl

lemma dataTree?_otherText : LoadContext.dataTree? otherText = some otherTree := by
  have hdata : otherTree.isData = true := by rfl
  rw [LoadContext.dataTree?, read?_otherText]
  exact if_pos hdata

lemma ofText_reference :
    Reference.ofText "http://h/d.yaml#/o" = .external "http://h/d.yaml" ["o"] := by
  rfl

/-- The field refers to the definition in the other document. -/
lemma target_outer : context.Target "http://h/d.yaml#/o" outer := by
  refine ⟨"", ?_⟩
  have hfollow : otherTree.follow? ["o"] = some outerTree := rfl
  rw [LoadContext.definition, ofText_reference]
  refine (bind_eq_of_ok fetchReference_other).trans ?_
  rw [dataTree?_otherText]
  simp only [hfollow, read?_outerTree]

/-- The other document has a definition of the name that is referred to inside of it. -/
lemma definedAt_loc : context.DefinedAt "http://h/d.yaml" "loc" (.ofType "int") := by
  refine ⟨_, _, typeTree "int", fetchReference_other, dataTree?_otherText, rfl, ?_⟩
  unfold FieldDeclaration.read?
  rfl

lemma filled_field : Filled context.Target field outer :=
  .refers rfl target_outer (FieldDeclaration.merges_iff.2 rfl)

/-- And so has the contract. -/
lemma target_loc : context.Target ("#/definitions/" ++ "loc") (.ofType "bytes") :=
  LoadContext.target_local_iff.2 rfl

lemma merges_inner (word : String) : inner.Merges (.ofType word) (.ofType word) :=
  FieldDeclaration.merges_iff.2 rfl

lemma filled_inner : Filled context.Target inner (.ofType "bytes") :=
  .refers rfl target_loc (merges_inner "bytes")

lemma comesFrom_inner : context.ComesFrom declaration "http://h/d.yaml" inner := by
  have hcomes : context.ComesUp declaration field :=
    ⟨_, List.mem_singleton_self _, ("f", field), List.mem_singleton_self _, .refl⟩
  have hparts : outer.parts = [inner] := rfl
  have hpart : inner ∈ outer.parts := hparts ▸ List.mem_singleton_self _
  have hinlines := (LoadContext.inlines_iff_filled rfl).2 filled_field
  exact ⟨field, _, _, outer, hcomes, rfl, ofText_reference, target_outer, .single hpart,
    .single ⟨outer, hinlines, hpart⟩⟩

/-- The definition of the contract is taken. -/
lemma ofDeclaration_declaration : Contract.ofDeclaration {} documents none declaration =
    .ok (contract (.nested { name := "f" } .object [.plain "a" .bytes])) := by
  have word : DataType.parse? (Text.canonical "bytes") = some .bytes := by decide +kernel
  have hinner (path : String) : context.field path 1 "a" inner = .ok (.plain "a" .bytes) := by
    rw [LoadContext.field_of_filled rfl filled_inner (by decide)]
    exact LoadContext.field_ofType "a" {} (by decide) word
  have hshape (path : String) : context.shape path 0 outer =
      .ok (.nested .object [.plain "a" .bytes]) := by
    rw [LoadContext.shape_of_isObject (by rfl), LoadContext.nestedShape_eq rfl]
    change LoadContext.fieldList _ path 1 [("a", inner)] >>= _ = _
    rw [LoadContext.fieldList_singleton hinner]
    rfl
  have hfield (path : String) : context.field path 0 "f" field =
      .ok (.nested { name := "f" } .object [.plain "a" .bytes]) :=
    LoadContext.field_of_shape (LoadContext.withDefinition_of_filled rfl filled_field (by decide))
      (hshape path) rfl
  rw [declaration, FieldDocument.ofDeclaration_eq]
  exact congrArg (Except.map contract) (hfield _)

set_option maxRecDepth 10000 in
lemma ofText_text : Contract.ofText {} documents text =
    .ok (contract (.nested { name := "f" } .object [.plain "a" .bytes])) := by
  have blank : (Text.trim text).isEmpty = false := by rfl
  rw [Contract.ofText, blank, read?_declaration]
  exact ofDeclaration_declaration

end CapturedReference

namespace Contract

open FieldDocument (contract)
open CapturedReference

/-- The field inside of the other document's definition gets the type of the contract's definition
and not that of the other document's own. -/
theorem ofDeclaration_captures_of_loc :
    context.ComesFrom declaration "http://h/d.yaml" inner ∧
    context.Inlines inner (.ofType "bytes") ∧
    context.DefinedAt "http://h/d.yaml" "loc" (.ofType "int") ∧
    inner.Merges (.ofType "int") (.ofType "int") ∧ ¬ context.Inlines inner (.ofType "int") := by
  obtain ⟨hcaptures, _⟩ := @ofDeclaration_captures {} documents none declaration rfl
  obtain ⟨t, e, ⟨name, hname, ht⟩, hmerge, hinlines, honly⟩ :=
    (hcaptures _ _ "loc" comesFrom_inner rfl).1 _ ofDeclaration_declaration
  have htarget : t = .ofType "bytes" :=
    LoadContext.Target.unique _ t _ (LoadContext.target_of_defines ⟨name, hname, ht⟩) target_loc
  rw [htarget] at hmerge
  cases hmerge.unique (merges_inner "bytes")
  refine ⟨comesFrom_inner, hinlines, definedAt_loc, merges_inner "int", fun h => ?_⟩
  have same := (honly _ _ definedAt_loc (merges_inner "int")).1 h
  exact absurd (congrArg (fun f => f.keywords.type) same) (by decide)

/-- **A reference need not be resolved in the document that it is written in**: it gets `bytes` by
the contract, where its own document says `int`. -/
theorem ofText_captures_reference :
    ∃ c, ContractDeclaration.read? text = some c ∧
      ofText {} documents text =
        .ok (contract (.nested { name := "f" } .object [.plain "a" .bytes])) ∧
      ∃ d, (c.loadContext {} documents none).ComesFrom c "http://h/d.yaml" d ∧
        d.keywords.reference = some ("#/definitions/" ++ "loc") ∧
        ∃ u e, (c.loadContext {} documents none).DefinedAt "http://h/d.yaml" "loc" u ∧
          d.Merges u e ∧ ¬ (c.loadContext {} documents none).Inlines d e := by
  refine ⟨_, read?_declaration, ofText_text, inner, comesFrom_inner, rfl, _, _, definedAt_loc,
    merges_inner "int", ?_⟩
  intro h
  have same := h.unique ((LoadContext.inlines_iff_filled rfl).2 filled_inner)
  exact absurd (congrArg (fun f => f.keywords.type) same) (by decide)

end Contract

end ContractDrift
