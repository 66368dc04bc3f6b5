import ContractDrift.Proofs.DistinctNames
import ContractDrift.Proofs.Loaded

/-!
# Loaded contracts index without collisions

Names are checked scope by scope while a contract is loaded: those of servers and models on the
declaration, those of fields and rules after references have been followed and items have been
entered.  Together the checks leave no scope out.  So no two parts of a loaded contract share a
path, and the index holds every part.

* `LoadContext.keeps_namesDistinct` — a loaded field has distinct names inside.
* **`Contract.namesDistinct_of_ofDeclaration`** — and so has a loaded contract.
* `Contract.allFields`, `Contract.allRules` — the fields and rules at all depths;
  `Contract.length_nodes` — with the other parts they are counted by the list of parts.
* **`Contract.index_of_ofDeclaration`** — the index of a loaded contract.
-/

namespace ContractDrift

/-! ## Names -/

lemma QualityRule.filterMap_name (rules : List QualityRule) :
    rules.filterMap name = (rules.map name).filterMap id := by
  rw [List.filterMap_map]
  rfl

namespace LoadContext

variable {context : LoadContext}

/-- The rules of a section have the names of its declarations. -/
lemma namesDistinct_of_rules {scope : String} {declared : Option (List RuleDeclaration)}
    {rules : List QualityRule} (h : context.rules scope declared = .ok rules) :
    QualityRule.NamesDistinct rules := by
  obtain ⟨hnodup, hrules⟩ := forall₂_of_rules h
  have hnames : rules.map QualityRule.name = (declared.getD []).map RuleDeclaration.name :=
    map_eq_of_forall₂ hrules fun _ _ => RuleFrom.name
  rw [QualityRule.NamesDistinct, QualityRule.filterMap_name, hnames, List.filterMap_map]
  exact hnodup

/-- A field that is loaded has distinct names, whatever it is declared as. -/
lemma keeps_namesDistinct (context : LoadContext) :
    context.Keeps (fun _ => True) Field.NamesDistinct where
  inline _ _ := trivial
  items _ _ := trivial
  fields _ _ _ := trivial
  step := by
    intro path name d quality f _ hquality hattributes names inside
    refine .intro ?_ names inside
    rw [hattributes]
    exact namesDistinct_of_rules hquality

lemma ModelFrom.namesDistinct {name : String} {d : ModelDeclaration} {m : Model}
    (h : context.ModelFrom name d m) : m.NamesDistinct := by
  obtain ⟨_, _, hfields⟩ := h.fields
  obtain ⟨_, hrules⟩ := h.rules
  obtain ⟨names, inside⟩ := context.keeps_namesDistinct.fieldList (fun _ _ => trivial) hfields
  exact ⟨namesDistinct_of_rules hrules, names, inside⟩

lemma ContractFrom.namesDistinct {d : ContractDeclaration} {c : Contract}
    (h : context.ContractFrom d c) : c.NamesDistinct where
  servers := by
    rw [map_eq_of_forall₂ h.servers fun _ _ hs => hs.name]
    exact h.serverNames
  names := by
    rw [map_eq_of_forall₂ h.models fun _ _ hm => hm.name]
    exact h.modelNames
  rules := by
    obtain ⟨_, hrules⟩ := h.rules
    exact namesDistinct_of_rules hrules
  models := by
    intro m hm
    obtain ⟨e, _, hm⟩ := exists_left_of_forall₂ h.models hm
    exact hm.namesDistinct

end LoadContext

/-- **In a loaded contract no name repeats in its scope.** -/
theorem Contract.namesDistinct_of_ofDeclaration {settings : LoaderSettings} {fetcher : Fetcher}
    {base : Option String} {d : ContractDeclaration} {c : Contract}
    (h : ofDeclaration settings fetcher base d = .ok c) : c.NamesDistinct :=
  (contractFrom_of_ofDeclaration h).namesDistinct

/-! ## Counting the parts -/

mutual

/-- The field and the fields inside of it, at any depth. -/
def Field.all : Field → List Field
  | .scalar attributes type constraints => [.scalar attributes type constraints]
  | .nested attributes container fields =>
    .nested attributes container fields :: Field.listAll fields

/-- The fields of a list and those inside of them, at any depth. -/
def Field.listAll : List Field → List Field
  | [] => []
  | f :: rest => f.all ++ Field.listAll rest

end

namespace Field

lemma listAll_eq_flatMap : ∀ fs : List Field, listAll fs = fs.flatMap all
  | [] => by simp [listAll]
  | f :: rest => by rw [listAll, List.flatMap_cons, listAll_eq_flatMap rest]

lemma all_eq (f : Field) : f.all = f :: f.children.flatMap all := by
  cases f with
  | scalar a t c => simp [all, children]
  | nested a k fs => simp [all, children, listAll_eq_flatMap]

/-- The rules of a field and of the fields inside of it, at any depth. -/
def allRules (f : Field) : List QualityRule := f.all.flatMap fun g => g.attributes.quality

lemma allRules_eq (f : Field) :
    f.allRules = f.attributes.quality ++ f.children.flatMap allRules := by
  unfold allRules
  rw [all_eq, List.flatMap_cons, List.flatMap_assoc]

end Field

/-- The rules of a model and of its fields, at any depth. -/
def Model.allRules (m : Model) : List QualityRule := m.quality ++ m.fields.flatMap Field.allRules

/-- The fields of a contract, at any depth. -/
def Contract.allFields (c : Contract) : List Field :=
  c.models.flatMap fun m => m.fields.flatMap Field.all

/-- The rules of a contract, of its models and of their fields at any depth. -/
def Contract.allRules (c : Contract) : List QualityRule :=
  c.quality ++ c.models.flatMap Model.allRules

lemma length_flatMap_add {α β γ δ : Type} {f : α → List β} {g : α → List γ} {h : α → List δ}
    {k : ℕ} : ∀ {l : List α}, (∀ x ∈ l, (f x).length = (g x).length + (h x).length + k) →
      (l.flatMap f).length = (l.flatMap g).length + (l.flatMap h).length + k * l.length
  | [], _ => rfl
  | x :: rest, hx => by
      have hfirst := hx x List.mem_cons_self
      have hrest := length_flatMap_add fun y hy => hx y (List.mem_cons_of_mem x hy)
      simp only [List.flatMap_cons, List.length_append, List.length_cons, Nat.mul_add] at *
      omega

lemma QualityRule.length_nodes {scope : Path} : ∀ {rules : List QualityRule}
    {earlier : List QualityKind}, (nodes scope earlier rules).length = rules.length
  | [], _ => rfl
  | s :: rest, earlier => by
      unfold nodes
      split <;> rw [List.length_cons, List.length_cons, length_nodes]

lemma Field.length_nodes (f : Field) : ∀ scope : Path,
    (f.nodes scope).length = f.all.length + f.allRules.length := by
  induction f using induction_on_children with
  | step f ih =>
      intro scope
      have inside := length_flatMap_add (k := 0) fun g hg => ih g hg (scope ++ [f.name, "fields"])
      rw [nodes_eq, all_eq, allRules_eq]
      simp only [List.length_append, List.length_cons, List.length_nil, QualityRule.length_nodes]
      omega

lemma Model.length_nodes (m : Model) :
    m.nodes.length = (m.fields.flatMap Field.all).length + m.allRules.length + 1 := by
  have inside := length_flatMap_add (k := 0) fun f (_ : f ∈ m.fields) =>
    f.length_nodes ["models", m.name, "fields"]
  rw [nodes_eq, allRules]
  simp only [List.length_append, List.length_cons, List.length_nil, QualityRule.length_nodes]
  omega

/-- **The list of parts counts them all.** -/
theorem Contract.length_nodes (c : Contract) : c.nodes.length =
    1 + (if c.terms.isSome then 1 else 0) + c.servers.length + c.models.length +
      c.allFields.length + c.allRules.length := by
  have models := length_flatMap_add fun m (_ : m ∈ c.models) => m.length_nodes
  have terms : c.terms.toList.length = if c.terms.isSome then 1 else 0 := by
    cases c.terms <;> rfl
  rw [nodes, allFields, allRules]
  simp only [List.length_append, List.length_cons, List.length_map, QualityRule.length_nodes, terms]
  omega

/-! ## The index -/

/-- **A loaded contract is indexed without collisions.**  Whatever the document, its definitions and
the fetcher are, no name repeats in a scope of the contract, so no two parts share a path: the index
has at each path the part that stands there, and as many entries as there are parts. -/
theorem Contract.index_of_ofDeclaration {settings : LoaderSettings} {fetcher : Fetcher}
    {base : Option String} {d : ContractDeclaration} {c : Contract}
    (h : ofDeclaration settings fetcher base d = .ok c) :
    c.NamesDistinct ∧ (c.nodes.map Prod.fst).Nodup ∧
      (∀ p n, c.index.get? p = some n ↔ c.NodeAt p n) ∧
      c.index.size = 1 + (if c.terms.isSome then 1 else 0) + c.servers.length + c.models.length +
        c.allFields.length + c.allRules.length := by
  have distinct := namesDistinct_of_ofDeclaration h
  refine ⟨distinct, nodup_paths distinct, fun p n => ?_, ?_⟩
  · rw [get?_index_iff distinct, mem_nodes_iff_nodeAt]
  · rw [index, Entries.size_ofList (nodup_paths distinct), length_nodes]

/-! ## A document with a definition -/

/-- The declaration of a scalar field by its type and the keywords of scalars. -/
def FieldDeclaration.ofType (word : String) (scalar : ScalarKeywords := {}) : FieldDeclaration :=
  { keywords := { type := some word, scalar } }

namespace LoadContext

variable {context : LoadContext} {path : String} {depth : Nat}

/-- A scalar field is what its type and keywords say. -/
lemma field_ofType (name : String) {word : String} {t : DataType} (k : ScalarKeywords)
    (hobject : isObjectWord (Text.canonical word) = false)
    (ht : DataType.parse? (Text.canonical word) = some t) :
    context.field path depth name (.ofType word k) =
      .ok (.scalar { name } (t.withKeywords k) k.constraints) := by
  have htype : (FieldDeclaration.ofType word k).dataType path (Text.canonical word) =
      .ok (t.withKeywords k) := by
    rw [FieldDeclaration.dataType, ht]
    rfl
  have hshape : context.shape path depth (.ofType word k) =
      .ok (.scalar (t.withKeywords k) k.constraints) := by
    rw [LoadContext.shape]
    change (if isObjectWord (Text.canonical word) then _
      else scalarShape path (Text.canonical word) (.ofType word k)) = _
    rw [hobject]
    change ((FieldDeclaration.ofType word k).dataType path (Text.canonical word) >>= _) = _
    rw [htype]
    rfl
  rw [LoadContext.field]
  change (context.shape path depth (.ofType word k) >>= _) = _
  rw [hshape]
  rfl

lemma fieldList_singleton {name : String} {d : FieldDeclaration} {f : Field}
    (h : ∀ path, context.field path depth name d = .ok f) :
    context.fieldList path depth [(name, d)] = .ok [f] := by
  rw [LoadContext.fieldList]
  change (context.field (path ++ ".fields" ++ "." ++ name) depth name d >>= fun f => .ok [f]) = _
  rw [h]
  rfl

end LoadContext

/-- Orders with lines, each line by a definition. -/
def ContractDeclaration.orders : ContractDeclaration where
  servers := [("prod", { type := some "postgres" })]
  models := [("orders", {
    fields := [("lines", {
      keywords := { type := some "array" }
      items := some { keywords := { reference := some "#/definitions/line" } } })] })]
  definitions := [("line", {
    keywords := { type := some "object" }
    fields := [("sku", .ofType "string")] })]

/-- The field of the orders: what the definition has stands inside of it. -/
lemma LoadContext.field_lines {path : String} :
    LoadContext.field ⟨{}, .ofDocuments [], none, ContractDeclaration.orders.definitions⟩ path 0
      "lines" { keywords := { type := some "array" }
                items := some { keywords := { reference := some "#/definitions/line" } } } =
      .ok (.nested { name := "lines" } .array [.plain "sku" .string]) := by
  rw [LoadContext.field]
  change (LoadContext.shape _ path 0 _ >>= _) = _
  rw [LoadContext.shape]
  change (LoadContext.nestedShape _ path 0 .array {} [("sku", .ofType "string")] >>= _) = _
  rw [LoadContext.nestedShape]
  change ((LoadContext.fieldList _ path 1 [("sku", .ofType "string")] >>= _) >>= _) = _
  have sku : DataType.parse? (Text.canonical "string") = some .string := by decide +kernel
  rw [fieldList_singleton fun path => field_ofType "sku" {} (by decide) sku]
  rfl

/-- The contract of the orders has five parts: who it is, a server, a model and two fields. -/
theorem Contract.index_of_ofDeclaration_orders :
    ∃ c, ofDeclaration {} (.ofDocuments []) none .orders = .ok c ∧ c.NamesDistinct ∧
      c.index.size = 5 := by
  have loaded : ofDeclaration {} (.ofDocuments []) none .orders = .ok {
      named "" "" "" with
      servers := [{ name := "prod", type := .parse "postgres" }]
      models := [{
        name := "orders"
        fields := [.nested { name := "lines" } .array [.plain "sku" .string]] }] } := by
    change ((((LoadContext.fieldList _ ("models." ++ "orders") 0 [("lines", _)]) >>= _) >>=
      fun m => .ok [m]) >>= _) = _
    rw [LoadContext.fieldList_singleton fun path => LoadContext.field_lines]
    rfl
  obtain ⟨distinct, _, _, size⟩ := index_of_ofDeclaration loaded
  exact ⟨_, loaded, distinct, size⟩

end ContractDrift
