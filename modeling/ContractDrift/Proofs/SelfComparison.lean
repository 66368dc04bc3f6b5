import ContractDrift.Proofs.Accounting
import ContractDrift.Proofs.Agreement
import ContractDrift.Proofs.LoadedNames
import ContractDrift.Proofs.LoadedValues

/-!
# Comparing a loaded contract with itself

All comparisons of attributes are reflexive but one: a bound that is NaN is not the same as itself.
Free values cannot hold NaN after loading, but the keywords for bounds read it as a number.  So a
loaded contract has changes against itself exactly if it has such a bound, and these changes are
there, one for each part, and nothing else.

* `Node.mem_differences_self_iff` — the groups in which a part differs from itself.
* `Contract.mem_changes_self_iff` — the changes of a contract against itself.
* **`Contract.compare_self_of_ofText`** — a loaded contract is the same as itself exactly if no
  bound is NaN; this is said of its changes, of its unchanged paths and of all its gates.
-/

namespace ContractDrift

open Yaml (Tree Document Token)

/-! ## Parts -/

lemma Binary64.same_self_iff {x : Binary64} : x.same x = true ↔ x ≠ .nan := by
  constructor
  · rintro h rfl
    simp [same] at h
  · exact same_self

lemma Constraints.sameNumber_self_iff {a : Option Binary64} :
    sameNumber a a = true ↔ .nan ∉ a.toList := by
  cases a with
  | none => simp [sameNumber]
  | some x =>
      rw [sameNumber, Binary64.same_self_iff, Option.toList_some, List.mem_singleton, ne_comm]

lemma Constraints.same_self_iff {c : Constraints} : c.same c = true ↔ .nan ∉ c.bounds := by
  simp only [same, bounds, Bool.and_eq_true, beq_self_eq_true, sameNumber_self_iff,
    List.mem_append, not_or, true_and, and_true, and_assoc]

lemma Bound.sameOptional_self_iff {b : Option Bound} :
    sameOptional b b = true ↔ .nan ∉ b.toList.map value := by
  cases b with
  | none => simp [sameOptional]
  | some x =>
      rw [sameOptional, same, beq_self_eq_true, Bool.and_true, Binary64.same_self_iff,
        Option.toList_some, List.map_singleton, List.mem_singleton, ne_comm]

lemma Threshold.same_self_iff {t : Threshold} : t.same t = true ↔ .nan ∉ t.bounds := by
  simp only [same, bounds, Bool.and_eq_true, Bound.sameOptional_self_iff, List.map_append,
    List.mem_append, not_or]

lemma Json.sameOptional_self {v? : Option Json} (h : ∀ v ∈ v?, v.IsDefinite) :
    sameOptional v? v? = true := by
  cases v? with
  | none => rfl
  | some v => exact h v rfl

/-- The group of attributes that holds the bounds of a part. -/
def Node.boundGroup : Node → Attribute
  | .field _ => .constraints
  | _ => .threshold

lemma FieldAttributes.differences_self {a : FieldAttributes}
    (hdefault : ∀ v ∈ a.default?, v.IsDefinite)
    (hexample : ∀ v ∈ a.metadata.example?, v.IsDefinite) : a.differences a = [] := by
  refine FieldAttributes.differences_eq_nil_iff.2 ?_
  exact ⟨rfl, rfl, rfl, rfl, Json.sameOptional_self hdefault, rfl, rfl,
    ⟨fun _ => Iff.rfl, rfl, rfl, Json.sameOptional_self hexample⟩⟩

lemma Field.mem_shapeDifferences_self_iff {f : Field} {g : Attribute} :
    g ∈ f.shapeDifferences f ↔ g = .constraints ∧ .nan ∈ (Node.field f).bounds := by
  cases f with
  | scalar a t c =>
      have hsame : (c.same c = false) ↔ .nan ∈ c.bounds := by
        rw [← Bool.not_eq_true, Constraints.same_self_iff, Classical.not_not]
      simp [shapeDifferences, Attribute.mem_when, hsame, Node.bounds, constraints?]
  | nested a k fs => simp [shapeDifferences, Attribute.mem_when, Node.bounds, constraints?]

/-- **A part differs from itself** in the group of its bounds if one of them is NaN, and in nothing
else. -/
theorem Node.mem_differences_self_iff {n : Node} {g : Attribute} (h : n.IsDefinite) :
    g ∈ n.differences n ↔ g = n.boundGroup ∧ .nan ∈ n.bounds := by
  cases n with
  | info i => simp [differences, Identity.differences_eq_nil_iff.2, bounds]
  | terms t => simp [differences, Attribute.mem_when, bounds]
  | server s =>
      have hs : s.differences s = [] :=
        Server.differences_eq_nil_iff.2 ⟨rfl, rfl, Parameters.same_iff.1 h.same_self⟩
      simp [differences, hs, bounds]
  | model m =>
      have hm : m.differences m = [] :=
        Model.differences_eq_nil_iff.2 ⟨rfl, rfl, rfl, rfl, fun _ => Iff.rfl⟩
      simp [differences, hm, bounds]
  | field f =>
      rw [differences, Field.differences, FieldAttributes.differences_self h.1 h.2,
        List.append_nil, Field.mem_shapeDifferences_self_iff]
      rfl
  | quality r =>
      have hparameters : r.parameters.same r.parameters = true := h.same_self
      have hthreshold : (r.threshold.same r.threshold = false) ↔ .nan ∈ r.threshold.bounds := by
        rw [← Bool.not_eq_true, Threshold.same_self_iff, Classical.not_not]
      simp [differences, QualityRule.differences, Attribute.mem_when, hparameters, hthreshold,
        bounds, boundGroup]

/-! ## Contracts -/

namespace Contract

variable {c : Contract}

lemma IsDefinite.of_get?_index (h : c.IsDefinite) {p : Path} {n : Node}
    (hn : c.index.get? p = some n) : n.IsDefinite :=
  h.of_nodeAt (mem_nodes_iff_nodeAt.1 (Entries.mem_of_get?_ofList hn))

/-- **The changes of a contract against itself** are those of parts with a bound that is NaN. -/
theorem mem_changes_self_iff (h : c.IsDefinite) {d : Change} : d ∈ (c.compare c).changes ↔
    ∃ p n, c.index.get? p = some n ∧ .nan ∈ n.bounds ∧ d = .modified p n.boundGroup n n := by
  constructor
  · intro hd
    cases d with
    | added p n =>
        obtain ⟨hnone, hsome⟩ := added_mem_iff.1 hd
        cases hnone.symm.trans hsome
    | removed p n =>
        obtain ⟨hsome, hnone⟩ := removed_mem_iff.1 hd
        cases hnone.symm.trans hsome
    | modified p g m n =>
        obtain ⟨hm, hn, hg⟩ := modified_mem_iff.1 hd
        obtain rfl := Option.some.inj (hm.symm.trans hn)
        obtain ⟨rfl, hnan⟩ := (Node.mem_differences_self_iff (h.of_get?_index hm)).1 hg
        exact ⟨p, m, hm, hnan, rfl⟩
  · rintro ⟨p, n, hn, hnan, rfl⟩
    have hg := (Node.mem_differences_self_iff (h.of_get?_index hn)).2 ⟨rfl, hnan⟩
    exact modified_mem_iff.2 ⟨hn, hn, hg⟩

lemma changes_self_eq_nil_iff (h : c.IsDefinite) (distinct : c.NamesDistinct) :
    (c.compare c).changes = [] ↔ c.HasNumericBounds := by
  rw [List.eq_nil_iff_forall_not_mem]
  constructor
  · rintro hnone ⟨p, n⟩ hn x hx rfl
    have hget := (get?_index_iff distinct).2 hn
    exact hnone _ ((mem_changes_self_iff h).2 ⟨p, n, hget, hx, rfl⟩)
  · intro hbounds d hd
    obtain ⟨p, n, hn, hnan, _⟩ := (mem_changes_self_iff h).1 hd
    exact hbounds.of_get?_index hn _ hnan rfl

/-- The unchanged paths of a contract against itself are all paths exactly if nothing changed. -/
lemma unchanged_self_eq_iff (c : Contract) :
    (c.compare c).unchanged = c.index.keys.toList ↔ (c.compare c).changes = [] := by
  have keys : c.index.keys.union c.index.keys = c.index.keys :=
    Members.ext_mem fun p => by rw [Members.mem_union, or_self]
  have unchanged : (c.compare c).unchanged =
      c.index.keys.toList.filter fun p =>
        Comparison.isUnchanged (c.index.get? p) (c.index.get? p) := by
    rw [compare, Comparison.between, keys]
  rw [unchanged, List.filter_eq_self, changes_eq_nil_iff]
  constructor
  · intro hall p
    cases hp : c.index.get? p with
    | none => rfl
    | some n =>
        have hmem : p ∈ c.index.keys := Entries.mem_keys_iff.2 (by rw [hp]; rfl)
        have hn := hall p hmem
        rw [hp, Comparison.isUnchanged, List.isEmpty_iff] at hn
        rw [Comparison.changesAt, hn, List.map_nil]
  · intro hnone p hp
    obtain ⟨n, hn⟩ := Option.isSome_iff_exists.1 (Entries.mem_keys_iff.1 hp)
    have hp := hnone p
    rw [hn, Comparison.changesAt, List.map_eq_nil_iff] at hp
    rw [hn, Comparison.isUnchanged, hp, List.isEmpty_nil]

/-- All gates of a contract against itself pass exactly if nothing changed: what differs is a part
that stayed, and no container covers it. -/
lemma passes_self_iff (h : c.IsDefinite) :
    (∀ settings failOn, (c.changelog c settings).passes failOn = true) ↔
      (c.compare c).changes = [] := by
  constructor
  · intro hall
    rw [List.eq_nil_iff_forall_not_mem]
    intro d hd
    obtain ⟨p, n, _, _, rfl⟩ := (mem_changes_self_iff h).1 hd
    exact passes_iff.1 (hall {} .info) _ hd Change.not_isCovered_modified (Severity.info_le _)
  · intro hnil settings failOn
    rw [passes_iff, hnil]
    exact fun d hd => absurd hd List.not_mem_nil

/-- **A loaded contract against itself.**  It has a change for each part with a bound that is NaN,
and no other.  So it has no change, all of its paths are unchanged, and all gates pass, each exactly
if no bound is NaN. -/
theorem compare_self_of_ofText {settings : LoaderSettings} {fetcher : Fetcher} {text : String}
    {base : Option String} {c : Contract} (h : ofText settings fetcher text base = .ok c) :
    (∀ d, d ∈ (c.compare c).changes ↔
      ∃ p n, c.NodeAt p n ∧ .nan ∈ n.bounds ∧ d = .modified p n.boundGroup n n) ∧
    ((c.compare c).changes = [] ↔ c.HasNumericBounds) ∧
    ((c.compare c).unchanged = c.index.keys.toList ↔ c.HasNumericBounds) ∧
    ((∀ settings failOn, (c.changelog c settings).passes failOn = true) ↔
      c.HasNumericBounds) := by
  have definite := isDefinite_of_ofText h
  obtain ⟨d, _, hd⟩ := exists_of_ofText h
  have distinct := namesDistinct_of_ofDeclaration hd
  have none := changes_self_eq_nil_iff definite distinct
  refine ⟨fun e => ?_, none, (unchanged_self_eq_iff c).trans none,
    (passes_self_iff definite).trans none⟩
  rw [mem_changes_self_iff definite]
  simp only [get?_index_iff distinct, mem_nodes_iff_nodeAt]

end Contract

/-! ## A document with a bound that is not a number -/

namespace NanMinimum

/-- The text of the document. -/
def text : String := "models: {m: {fields: {f: {type: int, minimum: .nan}}}}"

/-- The field of the document. -/
def field : Field := .scalar { name := "f" } .int { minimum := some .nan }

/-- The contract of the document. -/
def contract : Contract :=
  { Contract.named "" "" "" with models := [{ name := "m", fields := [field] }] }

/-- The tokens of a key. -/
def key (s : String) : List Token := [.key, .scalar .plain s, .value]

/-- The tokens of the document. -/
def tokens : List Token :=
  .blockMapping :: key "models" ++ .flowMapping :: key "m" ++ .flowMapping :: key "fields" ++
    .flowMapping :: key "f" ++ .flowMapping :: key "type" ++ .scalar .plain "int" :: .flowEntry ::
    key "minimum" ++ [.scalar .plain ".nan", .flowMappingEnd, .flowMappingEnd, .flowMappingEnd,
      .flowMappingEnd, .blockEnd]

/-- The entry of a mapping under a plain key. -/
def nodeUnder (s : String) (n : Yaml.Node) : Yaml.Node × Yaml.Node :=
  (.scalar {} .plain s, n)

/-- The document as a node. -/
def node : Yaml.Node :=
  .mapping {} [nodeUnder "models" (.mapping {} [nodeUnder "m" (.mapping {} [nodeUnder "fields"
    (.mapping {} [nodeUnder "f" (.mapping {} [nodeUnder "type" (.scalar {} .plain "int"),
      nodeUnder "minimum" (.scalar {} .plain ".nan")])])])])]

/-- The entry of a tree under a plain key. -/
def treeUnder (s : String) (t : Tree) : Tree × Tree := (.scalar none .plain s, t)

/-- The field as a tree. -/
def fieldTree : Tree :=
  .mapping none [treeUnder "type" (.scalar none .plain "int"),
    treeUnder "minimum" (.scalar none .plain ".nan")]

/-- The model as a tree. -/
def modelTree : Tree :=
  .mapping none [treeUnder "fields" (.mapping none [treeUnder "f" fieldTree])]

/-- The document as a tree. -/
def tree : Tree := .mapping none [treeUnder "models" (.mapping none [treeUnder "m" modelTree])]

/-- The field as a declaration. -/
def fieldDeclaration : FieldDeclaration := .ofType "int" { minimum := some .nan }

end NanMinimum

/-! ### Documents with one field -/

namespace FieldDocument

open NanMinimum (key treeUnder)

/-- The tokens of an indented mapping, given those of its values. -/
def block (entries : List (String × List Token)) : List Token :=
  .blockMapping :: (entries.flatMap fun (s, value) => key s ++ value) ++ [.blockEnd]

/-- The tokens of the models of a document with one field, given those of the field. -/
def modelsTokens (field : List Token) : List Token :=
  block [("m", block [("fields", block [("f", field)])])]

/-- The model of a document with one field as a tree, given the field. -/
def modelTree (t : Tree) : Tree :=
  .mapping none [treeUnder "fields" (.mapping none [treeUnder "f" t])]

/-- A document with one field as a tree, given the field. -/
def tree (t : Tree) : Tree :=
  .mapping none [treeUnder "models" (.mapping none [treeUnder "m" (modelTree t)])]

/-- The contract of a document with one field. -/
def contract (f : Field) : Contract :=
  { Contract.named "" "" "" with models := [{ name := "m", fields := [f] }] }

variable {t : Tree} {d : FieldDeclaration} {f : Field} {text : String}

lemma read?_modelTree (h : FieldDeclaration.read? .written t = some d) :
    ModelDeclaration.read? (modelTree t) = some { fields := [("f", d)] } := by
  have fields : namedSlot? .written "fields" (FieldDeclaration.read? .written)
      [("fields", .mapping none [treeUnder "f" t])] = some [("f", d)] := by
    change ((FieldDeclaration.read? .written t).bind fun a => some ("f", a)).bind
      (fun a => some [a]) = _
    rw [h]
    rfl
  change (namedSlot? .written "fields" (FieldDeclaration.read? .written)
    [("fields", .mapping none [treeUnder "f" t])]).bind _ = _
  rw [fields]
  rfl

lemma namedSlot?_models (h : FieldDeclaration.read? .written t = some d) :
    namedSlot? .written "models" ModelDeclaration.read?
      [("models", .mapping none [treeUnder "m" (modelTree t)])] =
        some [("m", { fields := [("f", d)] })] := by
  change ((ModelDeclaration.read? (modelTree t)).bind fun a => some ("m", a)).bind
    (fun a => some [a]) = _
  rw [read?_modelTree h]
  rfl

lemma read?_tree (hread : Document.read? text = some (.root (tree t)))
    (h : FieldDeclaration.read? .written t = some d) :
    ContractDeclaration.read? text = some { models := [("m", { fields := [("f", d)] })] } := by
  rw [ContractDeclaration.read?, hread]
  change (namedSlot? .written "models" ModelDeclaration.read?
    [("models", .mapping none [treeUnder "m" (modelTree t)])]).bind _ = _
  rw [namedSlot?_models h]
  rfl

/-- A document with one field is loaded as the contract of what the field is loaded as. -/
lemma ofText_eq (blank : (Text.trim text).isEmpty = false)
    (hread : Document.read? text = some (.root (tree t)))
    (h : FieldDeclaration.read? .written t = some d)
    (loaded : ∀ (context : LoadContext) path, context.field path 0 "f" d = .ok f) :
    Contract.ofText {} (.ofDocuments []) text = .ok (contract f) := by
  rw [Contract.ofText, blank, read?_tree hread h]
  change ((((LoadContext.fieldList _ ("models." ++ "m") 0 [("f", d)]) >>= _) >>=
    fun m => .ok [m]) >>= _) = _
  rw [LoadContext.fieldList_singleton (loaded _)]
  rfl

/-- A document with definitions and one field as a tree, given the definitions and the field. -/
def treeWith (definitions : List (Tree × Tree)) (t : Tree) : Tree :=
  .mapping none [treeUnder "definitions" (.mapping none definitions),
    treeUnder "models" (.mapping none [treeUnder "m" (modelTree t)])]

lemma read?_treeWith {entries : List (Tree × Tree)}
    {definitions : List (String × FieldDeclaration)}
    (hread : Document.read? text = some (.root (treeWith entries t)))
    (hdefinitions : namedSlot? .written "definitions" (FieldDeclaration.read? .written)
      [("definitions", .mapping none entries)] = some definitions)
    (h : FieldDeclaration.read? .written t = some d) :
    ContractDeclaration.read? text =
      some { models := [("m", { fields := [("f", d)] })], definitions } := by
  rw [ContractDeclaration.read?, hread]
  change (namedSlot? .written "models" ModelDeclaration.read?
    [("models", .mapping none [treeUnder "m" (modelTree t)])]).bind (fun models =>
      (namedSlot? .written "definitions" (FieldDeclaration.read? .written)
        [("definitions", .mapping none entries)]).bind _) = _
  rw [namedSlot?_models h, hdefinitions]
  rfl

/-- A document with one field is loaded as the field is. -/
lemma ofDeclaration_eq {settings : LoaderSettings} {fetcher : Fetcher} {base : Option String}
    {definitions : List (String × FieldDeclaration)} :
    Contract.ofDeclaration settings fetcher base
        { models := [("m", { fields := [("f", d)] })], definitions } =
      (LoadContext.field ⟨settings, fetcher, base, definitions⟩ "models.m.fields.f" 0 "f" d).map
        contract := by
  have hfields : LoadContext.fieldList ⟨settings, fetcher, base, definitions⟩ "models.m" 0
      [("f", d)] =
        (LoadContext.field ⟨settings, fetcher, base, definitions⟩ "models.m.fields.f" 0 "f" d).map
          fun f => [f] := by
    rw [LoadContext.fieldList]
    rfl
  change (((LoadContext.fieldList _ "models.m" 0 [("f", d)] >>= _) >>= fun m => .ok [m]) >>= _) = _
  rw [hfields]
  cases LoadContext.field ⟨settings, fetcher, base, definitions⟩ "models.m.fields.f" 0 "f" d <;>
    rfl

end FieldDocument

/-! ### The document is loaded -/

namespace NanMinimum

set_option maxRecDepth 10000 in
lemma listOf?_text : Token.listOf? text = some tokens := by
  rfl

lemma read?_text : Document.read? text = some (.root tree) := by
  have nodes : Yaml.Node.ofTokens? tokens = some (.root node) := rfl
  have trees : Tree.ofNode node = tree := by cbv
  simp only [Document.read?, listOf?_text, nodes, trees, Option.bind_eq_bind, Option.bind_some]

lemma read?_fieldTree : FieldDeclaration.read? .written fieldTree = some fieldDeclaration := by
  unfold FieldDeclaration.read?
  rfl

/-- The document is loaded. -/
lemma ofText_text : Contract.ofText {} (.ofDocuments []) text = .ok contract := by
  have int : DataType.parse? (Text.canonical "int") = some .int := by decide +kernel
  have blank : (Text.trim text).isEmpty = false := by rfl
  exact FieldDocument.ofText_eq blank read?_text read?_fieldTree
    fun _ _ => LoadContext.field_ofType "f" _ (by decide) int

/-- The change of the field against itself. -/
def change : Change :=
  .modified ["models", "m", "fields", "f"] .constraints (.field field) (.field field)

lemma fieldAt_field : contract.FieldAt ["models", "m", "fields", "f"] field := by
  have model : { name := "m", fields := [field] } ∈ contract.models := List.mem_cons_self
  exact .top model List.mem_cons_self

lemma nan_mem_bounds : .nan ∈ (Node.field field).bounds := by decide

end NanMinimum

namespace Contract

/-- The field has changed against itself in its constraints. -/
theorem compare_self_of_nan_minimum :
    ∃ c, ofText {} (.ofDocuments []) NanMinimum.text = .ok c ∧
      NanMinimum.change ∈ (c.compare c).changes := by
  refine ⟨_, NanMinimum.ofText_text, ?_⟩
  refine ((compare_self_of_ofText NanMinimum.ofText_text).1 _).2 ?_
  exact ⟨_, .field NanMinimum.field, NanMinimum.fieldAt_field, NanMinimum.nan_mem_bounds, rfl⟩

/-- **A loaded contract need not pass the gate against itself**: the change is breaking. -/
theorem fails_against_itself_of_nan_minimum :
    ∃ c, ofText {} (.ofDocuments []) "models: {m: {fields: {f: {type: int, minimum: .nan}}}}" =
        .ok c ∧
      (c.compare c).changes ≠ [] ∧ (c.compare c).unchanged ≠ c.index.keys.toList ∧
      (c.changelog c {}).passes .breaking = false := by
  have definite := isDefinite_of_ofText NanMinimum.ofText_text
  obtain ⟨d, _, hd⟩ := exists_of_ofText NanMinimum.ofText_text
  have hget := (get?_index_field_iff (namesDistinct_of_ofDeclaration hd)).2 NanMinimum.fieldAt_field
  have changed : NanMinimum.change ∈ (NanMinimum.contract.compare NanMinimum.contract).changes :=
    (mem_changes_self_iff definite).2 ⟨_, _, hget, NanMinimum.nan_mem_bounds, rfl⟩
  have hne := List.ne_nil_of_mem changed
  refine ⟨_, NanMinimum.ofText_text, hne, fun h => hne ((unchanged_self_eq_iff _).1 h), ?_⟩
  rw [← Bool.not_eq_true, passes_iff]
  intro hpass
  have breaking : NanMinimum.change.tableSeverity = .breaking := by
    refine Change.severity_field_eq_breaking_iff.2 ?_
    rintro _ ⟨⟩ _ ⟨⟩
    decide
  refine hpass _ changed Change.not_isCovered_modified ?_
  rw [Change.severity_grade_default, breaking]
  decide

end Contract

end ContractDrift
