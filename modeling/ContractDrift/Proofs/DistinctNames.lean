import ContractDrift.Proofs.Places

/-!
# Contracts in which no name repeats

A loaded contract has no two servers, models, sibling fields or named rules of one scope with the
same name.  Then no two parts share a path, and the index is the list of the parts and nothing
else.

* `Contract.NamesDistinct` — no name repeats, in any scope at any depth.
* **`Contract.nodup_paths`** — then no path repeats.
* **`Contract.get?_index_iff`** — what is read from the index at a path is what stands there.
-/

namespace ContractDrift

/-- No two named rules of a scope share their name. -/
def QualityRule.NamesDistinct (rules : List QualityRule) : Prop :=
  (rules.filterMap QualityRule.name).Nodup

/-- No name repeats in a scope at or inside the field. -/
inductive Field.NamesDistinct : Field → Prop
  | intro {f : Field} (rules : QualityRule.NamesDistinct f.attributes.quality)
      (names : (f.children.map Field.name).Nodup)
      (children : ∀ g ∈ f.children, Field.NamesDistinct g) : Field.NamesDistinct f

/-- No name repeats in a scope of the model. -/
structure Model.NamesDistinct (m : Model) : Prop where
  rules : QualityRule.NamesDistinct m.quality
  names : (m.fields.map Field.name).Nodup
  fields : ∀ f ∈ m.fields, f.NamesDistinct

/-- No name repeats in a scope of the contract. -/
structure Contract.NamesDistinct (c : Contract) : Prop where
  servers : (c.servers.map Server.name).Nodup
  names : (c.models.map Model.name).Nodup
  rules : QualityRule.NamesDistinct c.quality
  models : ∀ m ∈ c.models, m.NamesDistinct

/-! ## Paths below different names -/

/-- The paths of a list of parts. -/
def pathsOf (nodes : List (Path × Node)) : List Path := nodes.map Prod.fst

lemma mem_pathsOf {nodes : List (Path × Node)} {p : Path} :
    p ∈ pathsOf nodes ↔ ∃ n, (p, n) ∈ nodes := by
  simp [pathsOf]

lemma segment_unique {scope p : Path} {a b : String} (ha : scope ++ [a] <+: p)
    (hb : scope ++ [b] <+: p) : a = b := by
  have h := List.prefix_of_prefix_length_le ha hb (by simp)
  have h := h.eq_of_length (by simp)
  simpa using h

lemma not_append_isPrefix {q : Path} {a : String} : ¬ q ++ [a] <+: q := by
  intro h
  have := h.length_le
  rw [List.length_append, List.length_singleton] at this
  omega

/-- Parts below different names of one scope have different paths. -/
lemma nodup_pathsOf_flatMap {α : Type} (scope : Path) {name : α → String}
    {nodes : α → List (Path × Node)} : ∀ {l : List α}, (l.map name).Nodup →
      (∀ x ∈ l, (pathsOf (nodes x)).Nodup) →
      (∀ x ∈ l, ∀ p ∈ pathsOf (nodes x), scope ++ [name x] <+: p) →
      (pathsOf (l.flatMap nodes)).Nodup
  | [], _, _, _ => List.nodup_nil
  | x :: rest, names, each, below => by
      rw [List.map_cons, List.nodup_cons] at names
      rw [List.flatMap_cons, pathsOf, List.map_append, List.nodup_append]
      refine ⟨each x List.mem_cons_self, ?_, ?_⟩
      · exact nodup_pathsOf_flatMap scope names.2 (fun y hy => each y (List.mem_cons_of_mem _ hy))
          (fun y hy => below y (List.mem_cons_of_mem _ hy))
      · rintro p hp _ hq rfl
        obtain ⟨n, hq⟩ := mem_pathsOf.1 hq
        obtain ⟨y, hy, hq⟩ := List.mem_flatMap.1 hq
        have hxy : name x = name y :=
          segment_unique (below x List.mem_cons_self p hp)
            (below y (List.mem_cons_of_mem _ hy) p (mem_pathsOf.2 ⟨n, hq⟩))
        exact names.1 (List.mem_map.2 ⟨y, hy, hxy.symm⟩)

/-- What is inside a container, its rules and the container itself have different paths. -/
lemma nodup_pathsOf_container {q : Path} {n : Node} {inside rules : List (Path × Node)}
    (hinside : (pathsOf inside).Nodup) (hrules : (pathsOf rules).Nodup)
    (fields : ∀ p ∈ pathsOf inside, q ++ ["fields"] <+: p)
    (quality : ∀ p ∈ pathsOf rules, q ++ ["quality"] <+: p) :
    (pathsOf (inside ++ (rules ++ [(q, n)]))).Nodup := by
  simp only [pathsOf, List.map_append, List.map_cons, List.map_nil, List.nodup_append]
  refine ⟨hinside, ⟨hrules, by simp, ?_⟩, ?_⟩
  · rintro p hp _ hq rfl
    exact not_append_isPrefix (List.mem_singleton.1 hq ▸ quality p hp)
  · rintro p hp _ hq rfl
    rcases List.mem_append.1 hq with hq | hq
    · exact absurd (segment_unique (fields p hp) (quality p hq)) (by decide)
    · exact not_append_isPrefix (List.mem_singleton.1 hq ▸ fields p hp)

/-! ## No path repeats -/

lemma QualityRule.At.scope_isPrefix {earlier : List QualityKind} {rules : List QualityRule}
    {scope p : Path} {r : QualityRule} (h : At earlier rules scope p r) : scope <+: p := by
  cases h with
  | named _ _ => exact List.prefix_append _ _
  | nameless _ => exact List.prefix_append _ _

lemma QualityRule.scope_prefix_of_mem {scope p : Path} {earlier : List QualityKind}
    {rules : List QualityRule} (h : p ∈ pathsOf (nodes scope earlier rules)) : scope <+: p := by
  obtain ⟨n, h⟩ := mem_pathsOf.1 h
  obtain ⟨r, _, hr⟩ := mem_nodes_iff.1 h
  exact hr.scope_isPrefix

/-- Rules of a scope have different paths: named ones by their names, nameless ones of a kind by
their count. -/
lemma QualityRule.nodup_paths {scope : Path} : ∀ {rules : List QualityRule}
    {earlier : List QualityKind}, NamesDistinct rules → (pathsOf (nodes scope earlier rules)).Nodup
  | [], _, _ => List.nodup_nil
  | s :: rest, earlier, h => by
      unfold nodes
      split
      · rename_i name hs
        rw [NamesDistinct, List.filterMap_cons_some hs, List.nodup_cons] at h
        refine List.nodup_cons.2 ⟨fun hmem => ?_, nodup_paths h.2⟩
        obtain ⟨n, hmem⟩ := mem_pathsOf.1 hmem
        obtain ⟨r, _, hr⟩ := mem_nodes_iff.1 hmem
        obtain ⟨mem, hr⟩ := At.named_iff.1 hr
        exact h.1 (List.mem_filterMap.2 ⟨r, mem, hr⟩)
      · rename_i hs
        rw [NamesDistinct, List.filterMap_cons_none hs] at h
        refine List.nodup_cons.2 ⟨fun hmem => ?_, nodup_paths h⟩
        obtain ⟨n, hmem⟩ := mem_pathsOf.1 hmem
        obtain ⟨r, _, hr⟩ := mem_nodes_iff.1 hmem
        generalize hp : scope ++ [s.kind.name, Text.digits (earlier.count s.kind)] = p at hr
        cases hr with
        | named mem hr => simp at hp
        | @nameless _ k i _ =>
            obtain ⟨hname, hdigits⟩ : s.kind.name = k.name ∧ Text.digits (earlier.count s.kind)
                = Text.digits ((s.kind :: earlier).count k + i) := by simpa using hp
            obtain rfl := QualityKind.name_injective hname
            -- the later ones of this kind are counted from the next number on
            have hcount := Text.digits_injective hdigits
            rw [List.count_cons_self] at hcount
            omega

lemma Field.prefix_of_mem_nodes (f : Field) : ∀ {scope p : Path}, p ∈ pathsOf (f.nodes scope) →
    scope ++ [f.name] <+: p := by
  induction f using induction_on_children with
  | step f ih =>
      intro scope p h
      obtain ⟨n, h⟩ := mem_pathsOf.1 h
      rcases mem_nodes_iff.1 h with ⟨g, hg, h⟩ | h | h
      · have hp := ih g hg (mem_pathsOf.2 ⟨n, h⟩)
        exact List.IsPrefix.trans ⟨["fields", g.name], by simp⟩ hp
      · have hp := QualityRule.scope_prefix_of_mem (mem_pathsOf.2 ⟨n, h⟩)
        exact List.IsPrefix.trans ⟨["quality"], by simp⟩ hp
      · rw [(Prod.mk.inj h).1]

lemma Field.nodup_paths {f : Field} (h : f.NamesDistinct) :
    ∀ scope : Path, (pathsOf (f.nodes scope)).Nodup := by
  induction h with
  | @intro f rules names _ ih =>
      intro scope
      rw [nodes_eq]
      refine nodup_pathsOf_container ?_ (QualityRule.nodup_paths rules) ?_ ?_
      · exact nodup_pathsOf_flatMap _ names (fun g hg => ih g hg _)
          (fun g _ p hp => g.prefix_of_mem_nodes hp)
      · intro p hp
        obtain ⟨n, hp⟩ := mem_pathsOf.1 hp
        obtain ⟨g, _, hp⟩ := List.mem_flatMap.1 hp
        exact List.IsPrefix.trans ⟨[g.name], by simp⟩
          (g.prefix_of_mem_nodes (mem_pathsOf.2 ⟨n, hp⟩))
      · intro p hp
        have hp := QualityRule.scope_prefix_of_mem hp
        rwa [List.append_assoc]

lemma Model.prefix_of_mem_nodes {m : Model} {p : Path} (h : p ∈ pathsOf m.nodes) :
    ["models", m.name] <+: p := by
  obtain ⟨n, h⟩ := mem_pathsOf.1 h
  rcases mem_nodes_iff.1 h with ⟨f, _, h⟩ | h | h
  · exact List.IsPrefix.trans ⟨["fields", f.name], rfl⟩
      (f.prefix_of_mem_nodes (mem_pathsOf.2 ⟨n, h⟩))
  · exact List.IsPrefix.trans ⟨["quality"], rfl⟩
      (QualityRule.scope_prefix_of_mem (mem_pathsOf.2 ⟨n, h⟩))
  · rw [(Prod.mk.inj h).1]

lemma Model.nodup_paths {m : Model} (h : m.NamesDistinct) : (pathsOf m.nodes).Nodup := by
  rw [nodes_eq]
  refine nodup_pathsOf_container ?_ (QualityRule.nodup_paths h.rules) ?_ ?_
  · exact nodup_pathsOf_flatMap _ h.names (fun f hf => Field.nodup_paths (h.fields f hf) _)
      (fun f _ p hp => f.prefix_of_mem_nodes hp)
  · intro p hp
    obtain ⟨n, hp⟩ := mem_pathsOf.1 hp
    obtain ⟨f, _, hp⟩ := List.mem_flatMap.1 hp
    exact List.IsPrefix.trans ⟨[f.name], rfl⟩ (f.prefix_of_mem_nodes (mem_pathsOf.2 ⟨n, hp⟩))
  · intro p hp
    exact QualityRule.scope_prefix_of_mem hp

namespace Contract

/-- The parts of a contract by the first segment of their paths. -/
def sections (c : Contract) : List (String × List (Path × Node)) :=
  [("info", [(["info"], .info c.toIdentity)]),
    ("terms", c.terms.toList.map fun t => (["terms"], .terms t)),
    ("servers", c.servers.map fun s => (["servers", s.name], .server s)),
    ("models", c.models.flatMap Model.nodes),
    ("quality", QualityRule.nodes ["quality"] [] c.quality)]

lemma nodes_eq_sections (c : Contract) : c.nodes = c.sections.flatMap Prod.snd := by
  simp [nodes, sections]

variable {c : Contract}

lemma prefix_of_mem_sections : ∀ s ∈ c.sections, ∀ p ∈ pathsOf s.2, [] ++ [s.1] <+: p := by
  simp only [sections, List.forall_mem_cons, List.not_mem_nil, false_implies, implies_true,
    and_true, List.nil_append]
  refine ⟨?_, ?_, ?_, ?_, ?_⟩
  · intro p hp
    simp only [pathsOf, List.map_cons, List.map_nil, List.mem_singleton] at hp
    rw [hp]
  · intro p hp
    obtain ⟨n, hp⟩ := mem_pathsOf.1 hp
    obtain ⟨t, _, ht⟩ := List.mem_map.1 hp
    rw [← (Prod.mk.inj ht).1]
  · intro p hp
    obtain ⟨n, hp⟩ := mem_pathsOf.1 hp
    obtain ⟨s, _, hs⟩ := List.mem_map.1 hp
    exact ⟨[s.name], (Prod.mk.inj hs).1⟩
  · intro p hp
    obtain ⟨n, hp⟩ := mem_pathsOf.1 hp
    obtain ⟨m, _, hm⟩ := List.mem_flatMap.1 hp
    exact List.IsPrefix.trans ⟨[m.name], rfl⟩
      (Model.prefix_of_mem_nodes (mem_pathsOf.2 ⟨n, hm⟩))
  · exact fun p hp => QualityRule.scope_prefix_of_mem hp

lemma nodup_paths_of_mem_sections (h : c.NamesDistinct) :
    ∀ s ∈ c.sections, (pathsOf s.2).Nodup := by
  simp only [sections, List.forall_mem_cons, List.not_mem_nil, false_implies, implies_true,
    and_true]
  refine ⟨by simp [pathsOf], by cases c.terms <;> simp [pathsOf], ?_, ?_,
    QualityRule.nodup_paths h.rules⟩
  · rw [List.map_eq_flatMap]
    exact nodup_pathsOf_flatMap ["servers"] h.servers (fun s _ => by simp [pathsOf])
      (fun s _ p hp => by simp_all [pathsOf])
  · exact nodup_pathsOf_flatMap ["models"] h.names
      (fun m hm => Model.nodup_paths (h.models m hm)) (fun m _ p hp => Model.prefix_of_mem_nodes hp)

/-- **If no name repeats, no path does.** -/
theorem nodup_paths (h : c.NamesDistinct) : (c.nodes.map Prod.fst).Nodup := by
  rw [nodes_eq_sections]
  refine nodup_pathsOf_flatMap [] ?_ (nodup_paths_of_mem_sections h)
    prefix_of_mem_sections
  simp [sections]

/-- **Reading the index is finding the part at the path.** -/
theorem get?_index_iff (h : c.NamesDistinct) {p : Path} {n : Node} :
    c.index.get? p = some n ↔ (p, n) ∈ c.nodes :=
  Entries.get?_ofList_eq_some_iff (nodup_paths h)

theorem get?_index_model_iff (h : c.NamesDistinct) {p : Path} {m : Model} :
    c.index.get? p = some (.model m) ↔ c.ModelAt p m :=
  (get?_index_iff h).trans mem_nodes_iff_nodeAt

theorem get?_index_field_iff (h : c.NamesDistinct) {p : Path} {f : Field} :
    c.index.get? p = some (.field f) ↔ c.FieldAt p f :=
  (get?_index_iff h).trans mem_nodes_iff_nodeAt

lemma ModelAt.unique (h : c.NamesDistinct) {p : Path} {m n : Model} (hm : c.ModelAt p m)
    (hn : c.ModelAt p n) : m = n := by
  cases ((get?_index_model_iff h).2 hm).symm.trans ((get?_index_model_iff h).2 hn)
  rfl

lemma FieldAt.unique (h : c.NamesDistinct) {p : Path} {f g : Field} (hf : c.FieldAt p f)
    (hg : c.FieldAt p g) : f = g := by
  cases ((get?_index_field_iff h).2 hf).symm.trans ((get?_index_field_iff h).2 hg)
  rfl

/-- A container stands where the index holds one. -/
theorem containerAt_iff (h : c.NamesDistinct) {p : Path} :
    c.ContainerAt p ↔ ∃ n, c.index.get? p = some n ∧ n.isContainer = true := by
  constructor
  · rintro (⟨m, hm⟩ | ⟨f, hf⟩)
    · exact ⟨_, (get?_index_model_iff h).2 hm, rfl⟩
    · exact ⟨_, (get?_index_field_iff h).2 hf, rfl⟩
  · rintro ⟨n, hn, hcont⟩
    cases n with
    | model m => exact .inl ⟨m, (get?_index_model_iff h).1 hn⟩
    | field f => exact .inr ⟨f, (get?_index_field_iff h).1 hn⟩
    | info _ | terms _ | server _ | quality _ => cases hcont

end Contract

/-! ## A contract with one model -/

/-- The scalar field of a name and type and nothing else. -/
def Field.plain (name : String) (type : DataType) : Field := .scalar { name } type {}

lemma Field.namesDistinct_plain (name : String) (type : DataType) :
    (plain name type).NamesDistinct :=
  .intro List.nodup_nil List.nodup_nil fun _ hg => absurd hg List.not_mem_nil

/-- The contract of one dataset with the fields. -/
def Contract.single (fields : List Field) : Contract :=
  { named "orders" "Orders" "1.0.0" with models := [{ name := "orders", fields }] }

lemma Contract.namesDistinct_single {fields : List Field} (names : (fields.map Field.name).Nodup)
    (each : ∀ f ∈ fields, f.NamesDistinct) : (single fields).NamesDistinct where
  servers := List.nodup_nil
  names := List.nodup_singleton _
  rules := List.nodup_nil
  models := by
    intro m hm
    obtain rfl := List.mem_singleton.1 hm
    exact ⟨List.nodup_nil, names, each⟩

lemma Contract.fieldAt_single_iff {fields : List Field} (flat : ∀ f ∈ fields, f.children = [])
    {p : Path} {f : Field} : (single fields).FieldAt p f ↔
      f ∈ fields ∧ p = ["models", "orders", "fields", f.name] := by
  constructor
  · intro h
    induction h with
    | top hm hf =>
        obtain rfl := List.mem_singleton.1 hm
        exact ⟨hf, rfl⟩
    | inner _ hg ih =>
        rw [flat _ ih.1] at hg
        exact absurd hg List.not_mem_nil
  · rintro ⟨hf, rfl⟩
    have model : { name := "orders", fields } ∈ (single fields).models := List.mem_singleton_self _
    exact .top model hf

end ContractDrift
