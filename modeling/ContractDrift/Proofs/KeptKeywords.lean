import ContractDrift.Proofs.DeclaredFields
import ContractDrift.Proofs.Inlining
import ContractDrift.Proofs.SelfComparison

/-!
# Keywords that are kept

The keywords that limit the values of a field become its constraints, one by one and without
exception, at any depth and wherever they were inherited from.  A field with fields inside has no
values, and a document in which such a field has keywords is refused.  The items of an array are
another matter: the array has constraints of its own, its type says what the items are, and neither
has a place for what limits these.  So these keywords are read, and inherited, and no more.

* `ScalarKeywords.ShownBy` — the keywords and the constraints say the same.
* `FieldDeclaration.withLimits` — the declaration with other keywords, as far as its type does not
  depend on them.
* `LoadContext.shape_eq_error_of_nests` — why keywords of a field with fields inside are refused;
  **`LoadContext.shape_withLimits_items`** — which keywords of items make no difference.
* **`Contract.ofDeclaration_keeps_keywords`** — all of this for any settings, fetcher and
  declaration.
* **`Contract.ofText_drops_items_keywords`** — a document with a length for objects and a length for
  texts that are items is loaded, and neither is in the contract.
-/

namespace ContractDrift

open Yaml (Tree Document Token)

/-! ## Keywords and constraints -/

/-- The constraints have what the keywords say, and nothing else.  The allowed values are a set, and
each is in it by its text. -/
structure ScalarKeywords.ShownBy (k : ScalarKeywords) (c : Constraints) : Prop where
  minLength : c.minLength = k.minLength
  maxLength : c.maxLength = k.maxLength
  pattern : c.pattern = k.pattern
  format : c.format = k.format
  minimum : c.minimum = k.minimum
  maximum : c.maximum = k.maximum
  exclusiveMinimum : c.exclusiveMinimum = k.exclusiveMinimum
  exclusiveMaximum : c.exclusiveMaximum = k.exclusiveMaximum
  allowed : ∀ values, k.allowed = some values → ∃ members, c.allowed = some members ∧
    ∀ text, text ∈ members ↔ ∃ v ∈ values, memberText v = text
  unlimited : k.allowed = none → c.allowed = none

/-- The constraints that keywords make up show them. -/
lemma ScalarKeywords.shownBy_constraints (k : ScalarKeywords) : k.ShownBy k.constraints where
  minLength := rfl
  maxLength := rfl
  pattern := rfl
  format := rfl
  minimum := rfl
  maximum := rfl
  exclusiveMinimum := rfl
  exclusiveMaximum := rfl
  allowed values hvalues := by
    refine ⟨Members.ofList (values.map memberText), by simp [constraints, hvalues], fun text => ?_⟩
    rw [Members.mem_ofList, List.mem_map]
  unlimited hnone := by simp [constraints, hnone]

namespace FieldDeclaration

/-- The declaration with other keywords for its values.  Its precision and scale belong to the type
and stay. -/
def withLimits (f : FieldDeclaration) (k : ScalarKeywords) : FieldDeclaration :=
  { f with
    keywords := { f.keywords with
      scalar := { k with
        precision := f.keywords.scalar.precision
        scale := f.keywords.scalar.scale } } }

variable {f : FieldDeclaration} {k : ScalarKeywords}

@[simp] lemma typeWord_withLimits : (f.withLimits k).typeWord = f.typeWord := rfl

@[simp] lemma fields_withLimits : (f.withLimits k).fields = f.fields := rfl

@[simp] lemma isObject_withLimits : (f.withLimits k).isObject = f.isObject := rfl

@[simp] lemma reference_withLimits :
    (f.withLimits k).keywords.reference = f.keywords.reference := rfl

lemma withLimits_withLimits : (f.withLimits k).withLimits f.keywords.scalar = f := by
  cases f
  rfl

@[simp] lemma dataType_withLimits {path word : String} :
    (f.withLimits k).dataType path word = f.dataType path word := by
  unfold dataType
  cases DataType.parse? word with
  | none => rfl
  | some t => cases t <;> rfl

end FieldDeclaration

namespace LoadContext

open FieldDeclaration (withLimits withLimits_withLimits)

variable {context : LoadContext} {path : String} {depth : Nat} {d f i items : FieldDeclaration}

/-! ## Fields with fields inside -/

/-- **Keywords for values have no place where fields are inside.** -/
theorem shape_eq_error_of_nests (h : context.Nests path depth f)
    (hkeywords : f.keywords.scalar.isEmpty = false) :
    ∃ conflict, context.shape path depth f = .error (.conflictingShape path conflict) := by
  cases h with
  | object hobject =>
      rw [shape_of_isObject hobject, nestedShape_eq_error hkeywords]
      exact ⟨_, rfl⟩
  | items hword hitems inlined hobject =>
      rw [shape_of_array hword hitems, bind_eq_of_ok inlined, if_pos hobject,
        nestedShape_eq_error hkeywords]
      split <;> exact ⟨_, rfl⟩

/-! ## Items -/

lemma reference_eq_none_of_withDefinition (h : context.withDefinition path depth d = .ok f) :
    f.keywords.reference = none := by
  unfold withDefinition at h
  split at h
  · cases h
    assumption
  · split at h
    · cases h
    · split at h
      · obtain ⟨_, _, h⟩ := bind_eq_ok_iff.1 h
        cases h
        rfl
      · cases h
        rfl

lemma nestedShape_ne_scalar {container : Container} {keywords : ScalarKeywords}
    {fields : List (String × FieldDeclaration)} {t : DataType} {constraints : Constraints} :
    context.nestedShape path depth container keywords fields ≠ .ok (.scalar t constraints) := by
  intro h
  obtain ⟨_, _, _, h⟩ := nestedShape_eq_ok_iff.1 h
  cases h

/-- Whether a declaration is a scalar and of which type does not depend on what limits its
values. -/
lemma exists_scalar_withLimits {t : DataType} {constraints : Constraints}
    (h : context.shape path depth f = .ok (.scalar t constraints)) (k : ScalarKeywords) :
    ∃ limits, context.shape path depth (f.withLimits k) = .ok (.scalar t limits) := by
  cases hobject : f.isObject with
  | true =>
      rw [shape_of_isObject hobject] at h
      exact absurd h nestedShape_ne_scalar
  | false =>
      rcases f.array_or_not with ⟨i, hword, hitems⟩ | hnone
      · rw [shape_of_array hword hitems] at h
        obtain ⟨items, inlined, h⟩ := bind_eq_ok_iff.1 h
        rw [shape_of_array (f := f.withLimits k) hword hitems, bind_eq_of_ok inlined]
        cases hitem : items.isObject with
        | true =>
            rw [if_pos hitem] at h
            split at h
            · exact absurd h nestedShape_ne_scalar
            · cases h
        | false =>
            rw [if_neg (by simp [hitem])] at h ⊢
            obtain ⟨s, hs, h⟩ := bind_eq_ok_iff.1 h
            cases s with
            | scalar u inner =>
                cases h
                exact ⟨_, bind_eq_of_ok hs⟩
            | nested => cases h
      · rw [shape_of_scalar hobject hnone] at h
        rw [shape_of_scalar (f := f.withLimits k) hobject hnone,
          FieldDeclaration.typeWord_withLimits]
        split at h
        · unfold scalarShape at h ⊢
          split at h
          · rename_i hfields
            obtain ⟨u, hu, h⟩ := bind_eq_ok_iff.1 h
            cases h
            rw [FieldDeclaration.fields_withLimits, if_pos hfields,
              FieldDeclaration.dataType_withLimits, bind_eq_of_ok hu]
            exact ⟨_, rfl⟩
          · cases h
        · cases h

/-- **What limits the values of items makes no difference to the array.** -/
theorem shape_withLimits_items {s : FieldShape} (hword : f.typeWord = some "array")
    (hitems : f.items = some i)
    (inlined : context.withDefinition (path ++ ".items") (depth + 1) i = .ok items)
    (k : ScalarKeywords) :
    context.shape path depth f = .ok s ↔
      context.shape path depth { f with items := some (items.withLimits k) } = .ok s := by
  have hlimits : context.withDefinition (path ++ ".items") (depth + 1) (items.withLimits k) =
      .ok (items.withLimits k) := by
    rw [withDefinition, FieldDeclaration.reference_withLimits,
      reference_eq_none_of_withDefinition inlined]
  have hwritten : { f with items := some (items.withLimits k) }.typeWord = some "array" := hword
  rw [shape_of_array hword hitems, bind_eq_of_ok inlined, shape_of_array hwritten rfl,
    bind_eq_of_ok hlimits, FieldDeclaration.isObject_withLimits, FieldDeclaration.fields_withLimits]
  cases hobject : items.isObject with
  | true => rfl
  | false =>
      rw [if_neg (by simp), if_neg (by simp), bind_eq_ok_iff, bind_eq_ok_iff]
      constructor
      · rintro ⟨shape, hshape, h⟩
        cases shape with
        | scalar t limits =>
            obtain ⟨others, hothers⟩ := exists_scalar_withLimits hshape k
            exact ⟨_, hothers, h⟩
        | nested => cases h
      · rintro ⟨shape, hshape, h⟩
        cases shape with
        | scalar t limits =>
            have back := exists_scalar_withLimits hshape items.keywords.scalar
            rw [withLimits_withLimits] at back
            obtain ⟨others, hothers⟩ := back
            exact ⟨_, hothers, h⟩
        | nested => cases h

end LoadContext

namespace Contract

/-- **Keywords are kept or refused, but those of items are lost.**  In a loaded contract there are
fields at the paths where fields are declared, and each shows the keywords of its declaration, with
what that inherits from a definition.  If a declared field with such keywords has fields inside,
nothing is loaded; and if the loader comes to it, the error is that the two do not go together.  But
the shape of an array is the same whatever limits the values of its items. -/
theorem ofDeclaration_keeps_keywords (settings : LoaderSettings) (fetcher : Fetcher)
    (base : Option String) (c : ContractDeclaration) :
    (∀ k, ofDeclaration settings fetcher base c = .ok k →
      (∀ p, (∃ d, (c.loadContext settings fetcher base).DeclaredAt c p d) ↔ ∃ g, k.FieldAt p g) ∧
      ∀ p d g, (c.loadContext settings fetcher base).DeclaredAt c p d → k.FieldAt p g →
        ∃ f, (c.loadContext settings fetcher base).Inlines d f ∧
          f.keywords.scalar.ShownBy (g.constraints?.getD {})) ∧
    (∀ p d f path depth, (c.loadContext settings fetcher base).DeclaredAt c p d →
      (c.loadContext settings fetcher base).Inlines d f →
      (c.loadContext settings fetcher base).Nests path depth f →
      f.keywords.scalar.isEmpty = false →
      ∃ e, ofDeclaration settings fetcher base c = .error e) ∧
    (∀ path depth f, (c.loadContext settings fetcher base).Reaches c (.shape path depth f) →
      (c.loadContext settings fetcher base).Nests path depth f →
      f.keywords.scalar.isEmpty = false →
      ∃ conflict,
        ofDeclaration settings fetcher base c = .error (.conflictingShape path conflict)) ∧
    ∀ path depth f i items, f.typeWord = some "array" → f.items = some i →
      (c.loadContext settings fetcher base).withDefinition (path ++ ".items") (depth + 1) i =
        .ok items →
      ∀ limits s, (c.loadContext settings fetcher base).shape path depth f = .ok s ↔
        (c.loadContext settings fetcher base).shape path depth
          { f with items := some (items.withLimits limits) } = .ok s := by
  refine ⟨fun k h => ⟨fun p => ⟨?_, ?_⟩, fun p d g hd hg => ?_⟩, ?_, ?_, ?_⟩
  · rintro ⟨d, hd⟩
    obtain ⟨g, hg, _⟩ := exists_fieldAt_of_declaredAt h hd
    exact ⟨g, hg⟩
  · rintro ⟨g, hg⟩
    obtain ⟨d, hd, _⟩ := exists_declaredAt_of_fieldAt h hg
    exact ⟨d, hd⟩
  · obtain ⟨f, hf⟩ := fieldFrom_of_declaredAt h hd hg
    rw [hf.contents.constraints]
    exact ⟨f, hf.inlined, f.keywords.scalar.shownBy_constraints⟩
  · intro p d f path depth hd hinlines hnests hkeywords
    cases h : ofDeclaration settings fetcher base c with
    | error e => exact ⟨e, rfl⟩
    | ok k =>
        obtain ⟨_, _, hload⟩ := exists_fieldAt_of_declaredAt h hd
        obtain ⟨e, he⟩ := LoadContext.fieldFrom_of_loads hload
        cases he.inlined.unique hinlines
        exact absurd (he.contents.nested path depth hnests) (by simp [hkeywords])
  · intro path depth f hreaches hnests hkeywords
    obtain ⟨conflict, hshape⟩ := LoadContext.shape_eq_error_of_nests hnests hkeywords
    exact ⟨conflict, LoadContext.ofDeclaration_eq_error_of_fails hreaches hshape⟩
  · intro path depth f i items hword hitems inlined limits s
    exact LoadContext.shape_withLimits_items hword hitems inlined limits

end Contract

/-! ### Lengths of objects and of items -/

namespace LimitedObject

/-- An object with a length. -/
def field : FieldDeclaration where
  keywords := { type := some "object", scalar := { maxLength := some 5 } }

/-- A model with such an object. -/
def declaration : ContractDeclaration where
  models := [("m", { fields := [("f", field)] })]

/-- What is known while the model is loaded. -/
def context : LoadContext := declaration.loadContext {} (.ofDocuments []) none

/-- The path of the object. -/
def path : String := memberPath ("models." ++ "m") "f"

lemma nests_field : context.Nests path 0 field := .object (by rfl)

lemma declaredAt_field : context.DeclaredAt declaration ["models", "m", "fields", "f"] field :=
  .top (m := ("m", { fields := [("f", field)] })) (x := ("f", field))
    List.mem_cons_self List.mem_cons_self

lemma reaches_shape : context.Reaches declaration (.shape path 0 field) := by
  have hstart : context.Starts declaration (.field path 0 "f" field) :=
    .field List.nodup_nil (List.nodup_singleton _) (fun _ h => absurd h List.not_mem_nil)
      ⟨[], [], rfl, fun _ h => absurd h List.not_mem_nil⟩
      ⟨List.nodup_singleton _, [], [], rfl, fun _ h => absurd h List.not_mem_nil⟩
  exact ⟨_, hstart, .single (.shape rfl)⟩

end LimitedObject

namespace ItemLengths

open FieldDocument (block contract modelsTokens tree)
open NanMinimum (treeUnder)

/-- An array of objects with a length, and in these an array of texts with a length. -/
def text : String :=
  "models:\n m:\n  fields:\n   f:\n    type: array\n    items:\n" ++
    "     type: object\n     maxLength: 5\n     fields:\n" ++
    "      a:\n       type: array\n       items:\n        type: text\n        maxLength: 5\n"

/-- The array of texts. -/
def texts : FieldDeclaration where
  keywords := { type := some "array" }
  items := some (.ofType "text" { maxLength := some 5 })

/-- The objects. -/
def object : FieldDeclaration where
  keywords := { type := some "object", scalar := { maxLength := some 5 } }
  fields := [("a", texts)]

/-- The array of objects. -/
def objects : FieldDeclaration where
  keywords := { type := some "array" }
  items := some object

/-- The document as a declaration. -/
def declaration : ContractDeclaration where
  models := [("m", { fields := [("f", objects)] })]

/-- What is known while the document is loaded. -/
def context : LoadContext := declaration.loadContext {} (.ofDocuments []) none

/-- The inner array of the contract. -/
def loadedTexts : Field := .plain "a" (.arrayOf .string)

/-- The outer array of the contract. -/
def loadedObjects : Field := .nested { name := "f" } .array [loadedTexts]

/-- The array of texts as tokens. -/
def textsTokens : List Token :=
  block [("type", [.scalar .plain "array"]),
    ("items", block [("type", [.scalar .plain "text"]), ("maxLength", [.scalar .plain "5"])])]

/-- The array of objects as tokens. -/
def objectsTokens : List Token :=
  block [("type", [.scalar .plain "array"]),
    ("items", block [("type", [.scalar .plain "object"]), ("maxLength", [.scalar .plain "5"]),
      ("fields", block [("a", textsTokens)])])]

/-- The texts as a tree. -/
def textTree : Tree :=
  .mapping none [treeUnder "type" (.scalar none .plain "text"),
    treeUnder "maxLength" (.scalar none .plain "5")]

/-- The array of texts as a tree. -/
def textsTree : Tree :=
  .mapping none [treeUnder "type" (.scalar none .plain "array"), treeUnder "items" textTree]

/-- The objects as a tree. -/
def objectTree : Tree :=
  .mapping none [treeUnder "type" (.scalar none .plain "object"),
    treeUnder "maxLength" (.scalar none .plain "5"),
    treeUnder "fields" (.mapping none [treeUnder "a" textsTree])]

/-- The array of objects as a tree. -/
def objectsTree : Tree :=
  .mapping none [treeUnder "type" (.scalar none .plain "array"), treeUnder "items" objectTree]

set_option maxRecDepth 10000 in
lemma listOf?_text :
    Token.listOf? text = some (block [("models", modelsTokens objectsTokens)]) := by
  rfl

lemma read?_text : Document.read? text = some (.root (tree objectsTree)) := by
  simp only [Document.read?, listOf?_text, Option.bind_eq_bind, Option.bind_some]
  cbv

lemma read?_textTree : FieldDeclaration.read? .written textTree =
    some (.ofType "text" { maxLength := some 5 }) := by
  unfold FieldDeclaration.read?
  rfl

lemma read?_textsTree : FieldDeclaration.read? .written textsTree = some texts := by
  unfold FieldDeclaration.read?
  change (FieldDeclaration.read? .written textTree).bind (fun items =>
    some ({ keywords := { type := some "array" }, items := some items } : FieldDeclaration)) = _
  rw [read?_textTree]
  rfl

lemma read?_objectTree : FieldDeclaration.read? .written objectTree = some object := by
  unfold FieldDeclaration.read?
  change (((FieldDeclaration.read? .written textsTree).bind fun d => some ("a", d)).bind fun x =>
    some [x]).bind _ = _
  rw [read?_textsTree]
  rfl

lemma read?_objectsTree : FieldDeclaration.read? .written objectsTree = some objects := by
  unfold FieldDeclaration.read?
  change (FieldDeclaration.read? .written objectTree).bind (fun items =>
    some ({ keywords := { type := some "array" }, items := some items } : FieldDeclaration)) = _
  rw [read?_objectTree]
  rfl

lemma read?_declaration : ContractDeclaration.read? text = some declaration :=
  FieldDocument.read?_tree read?_text read?_objectsTree

lemma typeWord_texts : texts.typeWord = some "array" := by rfl

lemma typeWord_objects : objects.typeWord = some "array" := by rfl

lemma shape_texts (context : LoadContext) (path : String) :
    context.shape path 1 texts = .ok (.scalar (.arrayOf .string) {}) := by
  have hword : (FieldDeclaration.ofType "text" { maxLength := some 5 }).typeWord = some "text" := by
    rfl
  have hstring : DataType.parse? "text" = some .string := by decide +kernel
  have hitems : context.shape (path ++ ".items") (1 + 1)
      (.ofType "text" { maxLength := some 5 }) = .ok (.scalar .string { maxLength := some 5 }) :=
    LoadContext.shape_of_word hword (by decide) rfl rfl hstring
  rw [LoadContext.shape_of_array typeWord_texts rfl]
  refine (bind_eq_of_ok (a := FieldDeclaration.ofType "text" { maxLength := some 5 }) rfl).trans ?_
  exact bind_eq_of_ok hitems

lemma field_objects (context : LoadContext) (path : String) :
    context.field path 0 "f" objects = .ok loadedObjects := by
  have htexts (path : String) : context.field path 1 "a" texts = .ok loadedTexts :=
    LoadContext.field_of_shape rfl (shape_texts context path) rfl
  have hshape : context.shape path 0 objects = .ok (.nested .array [loadedTexts]) := by
    rw [LoadContext.shape_of_array typeWord_objects rfl]
    refine (bind_eq_of_ok (a := object) rfl).trans ?_
    rw [if_pos (by rfl), if_pos (by rfl), LoadContext.nestedShape_eq rfl]
    change LoadContext.fieldList _ path 1 [("a", texts)] >>= _ = _
    rw [LoadContext.fieldList_singleton htexts]
    rfl
  exact LoadContext.field_of_shape rfl hshape rfl

set_option maxRecDepth 10000 in
/-- The document is loaded. -/
lemma ofText_text : Contract.ofText {} (.ofDocuments []) text = .ok (contract loadedObjects) := by
  have blank : (Text.trim text).isEmpty = false := by rfl
  exact FieldDocument.ofText_eq blank read?_text read?_objectsTree field_objects

lemma declaredAt_objects :
    context.DeclaredAt declaration ["models", "m", "fields", "f"] objects :=
  .top (m := ("m", { fields := [("f", objects)] })) (x := ("f", objects))
    List.mem_cons_self List.mem_cons_self

lemma declaredAt_texts :
    context.DeclaredAt declaration ["models", "m", "fields", "f", "fields", "a"] texts :=
  have hmembers : context.HasMembers objects object.fields :=
    .items typeWord_objects rfl ⟨"", rfl⟩ (by rfl)
  .inner declaredAt_objects ⟨"", rfl⟩ hmembers (List.mem_singleton_self ("a", texts))

end ItemLengths

/-- The order lines have the field that is declared for their items. -/
lemma OrderLines.declaredAt_sku : context.DeclaredAt declaration
    ["models", "orders", "fields", "lines", "fields", "sku"] sku :=
  have hlines : context.DeclaredAt declaration ["models", "orders", "fields", "lines"] lines :=
    .top (m := ("orders", { fields := [("lines", lines)] })) (x := ("lines", lines))
      List.mem_cons_self List.mem_cons_self
  have hmembers : context.HasMembers lines line.fields :=
    .items typeWord_lines rfl ⟨"", withDefinition_eq filled_items (by decide)⟩ isObject_line
  .inner hlines ⟨"", rfl⟩ hmembers (List.mem_singleton_self ("sku", sku))

lemma OrderLines.fieldAt_sku : contract.FieldAt
    ["models", "orders", "fields", "lines", "fields", "sku"]
    (.scalar { name := "sku", required := true } .string { maxLength := some 12 }) := by
  have hmodel : _ ∈ contract.models := List.mem_cons_self
  exact .inner (.top hmodel List.mem_cons_self) List.mem_cons_self

namespace Contract

/-- The length of the order lines comes from a definition and is kept, that of an object is refused,
and with any length the texts in an array are loaded alike. -/
theorem ofDeclaration_keeps_keywords_of_lengths :
    (∃ f, OrderLines.context.Inlines OrderLines.sku f ∧
      f.keywords.scalar.ShownBy { maxLength := some 12 }) ∧
    (∃ e, ofDeclaration {} (.ofDocuments []) none LimitedObject.declaration = .error e) ∧
    (∃ conflict, ofDeclaration {} (.ofDocuments []) none LimitedObject.declaration =
      .error (.conflictingShape LimitedObject.path conflict)) ∧
    ∀ limits path, ItemLengths.context.shape path 1 { ItemLengths.texts with
      items := some ((FieldDeclaration.ofType "text" { maxLength := some 5 }).withLimits limits) } =
        .ok (.scalar (.arrayOf .string) {}) := by
  obtain ⟨hkept, _, _, _⟩ :=
    ofDeclaration_keeps_keywords {} (.ofDocuments []) none OrderLines.declaration
  obtain ⟨_, hnested, hrefused, _⟩ :=
    ofDeclaration_keeps_keywords {} (.ofDocuments []) none LimitedObject.declaration
  obtain ⟨_, _, _, hlost⟩ :=
    ofDeclaration_keeps_keywords {} (.ofDocuments []) none ItemLengths.declaration
  refine ⟨?_, ?_, ?_, fun limits path => ?_⟩
  · exact (hkept _ OrderLines.ofDeclaration_orders).2 _ _ _ OrderLines.declaredAt_sku
      OrderLines.fieldAt_sku
  · exact hnested _ _ _ _ _ LimitedObject.declaredAt_field ⟨"", rfl⟩ LimitedObject.nests_field rfl
  · exact hrefused _ _ _ LimitedObject.reaches_shape LimitedObject.nests_field rfl
  · exact (hlost path 1 _ _ _ ItemLengths.typeWord_texts rfl rfl limits _).1
      (ItemLengths.shape_texts _ path)

open ItemLengths in
/-- **What limits items is not in the contract.**  The document is loaded although a length has no
place on the objects in an array; and the array of texts has no constraints, although its items have
a length. -/
theorem ofText_drops_items_keywords :
    ∃ c k, ContractDeclaration.read? text = some c ∧ ofText {} (.ofDocuments []) text = .ok k ∧
      (∃ p d items, (c.loadContext {} (.ofDocuments []) none).DeclaredAt c p d ∧
        d.typeWord = some "array" ∧ d.items = some items ∧ items.isObject = true ∧
        items.keywords.scalar.maxLength = some 5) ∧
      ∃ p d items g, (c.loadContext {} (.ofDocuments []) none).DeclaredAt c p d ∧
        d.typeWord = some "array" ∧ d.items = some items ∧ items.isObject = false ∧
        items.keywords.scalar.maxLength = some 5 ∧ k.FieldAt p g ∧
        g.constraints? = some {} := by
  have hmodel : { name := "m", fields := [loadedObjects] } ∈
      (FieldDocument.contract loadedObjects).models := List.mem_cons_self
  have hfield : (FieldDocument.contract loadedObjects).FieldAt
      ["models", "m", "fields", "f", "fields", "a"] loadedTexts :=
    .inner (.top hmodel List.mem_cons_self) List.mem_cons_self
  refine ⟨_, _, read?_declaration, ofText_text, ?_, ?_⟩
  · exact ⟨_, objects, object, declaredAt_objects, typeWord_objects, rfl, by rfl, rfl⟩
  · exact ⟨_, texts, _, loadedTexts, declaredAt_texts, typeWord_texts, rfl, by rfl, rfl, hfield,
      rfl⟩

end Contract

end ContractDrift
