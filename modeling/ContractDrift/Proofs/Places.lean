import ContractDrift.Comparison.Index
import ContractDrift.Proofs.Lookup
import Mathlib.Data.List.Infix

/-!
# What stands at which path

`Contract.nodes` lists the parts of a contract with their paths.  This file says which pairs are in
that list, without the order in which it is put together.

* `Field.mem_nodes_iff`, `QualityRule.mem_nodes_iff`, `Contract.mem_nodes_iff` — the members of
  each part of the list.
* `Contract.ModelAt`, `Contract.FieldAt`, `Contract.RuleAt` — the models, fields and rules of a
  contract by their paths, at any depth; **`Contract.mem_nodes_iff_nodeAt`** — with the other parts
  they are what the list holds.
* `NodeSort`, `Path.sort?` — the six sorts of parts, and the sort that the shape of a path allows.
  **`Contract.sort?_of_mem_nodes`** — names chosen by a user never lead to a part of another sort:
  the words `fields` and `quality` are read at places where no name can stand.
* `Contract.ContainerAt` — a model or a field stands at a path;
  **`Contract.containerAt_of_isPrefix`** — with a container all the containers above it are there.
-/

namespace ContractDrift

/-! ## Fields and what is inside them

A scalar field has no children, so both shapes can be treated alike.
-/

namespace Field

lemma sizeOf_lt_of_mem_children {f g : Field} (h : g ∈ f.children) : sizeOf g < sizeOf f := by
  cases f with
  | scalar a t c => simp [children] at h
  | nested a k fs =>
      have := List.sizeOf_lt_of_mem h
      simp only [children, nested.sizeOf_spec] at *
      omega

/-- What holds of a field as soon as it holds of its children holds of every field. -/
theorem induction_on_children {P : Field → Prop}
    (step : ∀ f : Field, (∀ g ∈ f.children, P g) → P f) (f : Field) : P f :=
  step f fun g _ => induction_on_children step g
termination_by sizeOf f
decreasing_by exact sizeOf_lt_of_mem_children ‹_›

lemma listNodes_eq_flatMap (scope : Path) :
    ∀ fs : List Field, listNodes scope fs = fs.flatMap (nodes scope)
  | [] => by simp [listNodes]
  | f :: rest => by rw [listNodes, List.flatMap_cons, listNodes_eq_flatMap scope rest]

lemma nodes_eq (scope : Path) (f : Field) :
    f.nodes scope = f.children.flatMap (nodes (scope ++ [f.name, "fields"])) ++
      (QualityRule.nodes (scope ++ [f.name, "quality"]) [] f.attributes.quality ++
        [(scope ++ [f.name], .field f)]) := by
  cases f with
  | scalar a t c => simp [nodes, children, name]
  | nested a k fs => simp [nodes, children, name, listNodes_eq_flatMap]

theorem mem_nodes_iff {scope : Path} {f : Field} {e : Path × Node} :
    e ∈ f.nodes scope ↔ (∃ g ∈ f.children, e ∈ g.nodes (scope ++ [f.name, "fields"])) ∨
      e ∈ QualityRule.nodes (scope ++ [f.name, "quality"]) [] f.attributes.quality ∨
      e = (scope ++ [f.name], .field f) := by
  rw [nodes_eq, List.mem_append, List.mem_append, List.mem_flatMap, List.mem_singleton]

lemma self_mem_nodes (scope : Path) (f : Field) :
    (scope ++ [f.name], Node.field f) ∈ f.nodes scope :=
  mem_nodes_iff.2 (.inr (.inr rfl))

end Field

/-! ## Rules -/

namespace QualityKind

lemma name_injective : Function.Injective name := by
  intro k l h
  cases k <;> cases l <;> first | rfl | exact absurd h (by decide)

end QualityKind

lemma Text.digits_injective : Function.Injective Text.digits := by
  intro m n h
  have hd : Nat.toDigits 10 m = Nat.toDigits 10 n := String.ofList_injective h
  rw [← Nat.ofDigitChars_ten_toDigits (n := m), hd, Nat.ofDigitChars_ten_toDigits]

namespace QualityRule

/-- Whether a rule is a nameless one of a kind. -/
def isNameless (k : QualityKind) (r : QualityRule) : Bool := r.name.isNone && r.kind == k

lemma isNameless_eq_true_iff {k : QualityKind} {r : QualityRule} :
    r.isNameless k = true ↔ r.name = none ∧ r.kind = k := by
  simp [isNameless]

/-- The rule `r` of a scope stands at `path`; `earlier` are the kinds of nameless rules before.  A
nameless rule is counted among the nameless ones of its kind. -/
inductive At (earlier : List QualityKind) (rules : List QualityRule) (scope : Path) :
    Path → QualityRule → Prop
  | named {r : QualityRule} {name : String} (mem : r ∈ rules) (named : r.name = some name) :
      At earlier rules scope (scope ++ [name]) r
  | nameless {r : QualityRule} {k : QualityKind} {i : ℕ}
      (place : (rules.filter (isNameless k))[i]? = some r) :
      At earlier rules scope (scope ++ [k.name, Text.digits (earlier.count k + i)]) r

namespace At

variable {earlier : List QualityKind} {rules : List QualityRule} {scope p : Path} {r : QualityRule}

lemma mem (h : At earlier rules scope p r) : r ∈ rules := by
  cases h with
  | named mem _ => exact mem
  | nameless place => exact (List.mem_filter.1 (List.mem_of_getElem? place)).1

/-- At a path with one segment stands the rule with this name. -/
lemma named_iff {name : String} :
    At earlier rules scope (scope ++ [name]) r ↔ r ∈ rules ∧ r.name = some name := by
  refine ⟨fun h => ?_, fun h => .named h.1 h.2⟩
  generalize hp : scope ++ [name] = p at h
  cases h with
  | @named _ other mem hr =>
      obtain rfl : name = other := by simpa using hp
      exact ⟨mem, hr⟩
  | nameless _ => simp at hp

/-- At a path with two segments stands the nameless rule of this kind and count. -/
lemma nameless_iff {k : QualityKind} {i : ℕ} :
    At earlier rules scope (scope ++ [k.name, Text.digits (earlier.count k + i)]) r ↔
      (rules.filter (isNameless k))[i]? = some r := by
  refine ⟨fun h => ?_, fun h => .nameless h⟩
  generalize hp : scope ++ [k.name, Text.digits (earlier.count k + i)] = p at h
  cases h with
  | named _ _ => simp at hp
  | @nameless _ l j place =>
      obtain ⟨hname, hdigits⟩ : k.name = l.name ∧
          Text.digits (earlier.count k + i) = Text.digits (earlier.count l + j) := by
        simpa using hp
      obtain rfl := QualityKind.name_injective hname
      obtain rfl : i = j := by
        have := Text.digits_injective hdigits
        omega
      exact place

/-- A named rule in front leaves the places of the others. -/
lemma cons_named_iff {s : QualityRule} {name : String} (hs : s.name = some name) :
    At earlier (s :: rules) scope p r ↔
      (p = scope ++ [name] ∧ r = s) ∨ At earlier rules scope p r := by
  constructor
  · intro h
    cases h with
    | named mem hr =>
        rcases List.mem_cons.1 mem with rfl | mem
        · exact .inl ⟨by rw [Option.some.inj (hs.symm.trans hr)], rfl⟩
        · exact .inr (.named mem hr)
    | nameless place =>
        rw [List.filter_cons_of_neg (by simp [isNameless, hs])] at place
        exact .inr (.nameless place)
  · rintro (⟨rfl, rfl⟩ | h)
    · exact .named List.mem_cons_self hs
    · cases h with
      | named mem hr => exact .named (List.mem_cons_of_mem _ mem) hr
      | nameless place =>
          exact .nameless (by rwa [List.filter_cons_of_neg (by simp [isNameless, hs])])

/-- A nameless rule in front moves the count of its kind by one. -/
lemma cons_nameless_iff {s : QualityRule} (hs : s.name = none) :
    At earlier (s :: rules) scope p r ↔
      (p = scope ++ [s.kind.name, Text.digits (earlier.count s.kind)] ∧ r = s) ∨
        At (s.kind :: earlier) rules scope p r := by
  have own : (s :: rules).filter (isNameless s.kind) = s :: rules.filter (isNameless s.kind) :=
    List.filter_cons_of_pos (by simp [isNameless, hs])
  have other : ∀ {k}, s.kind ≠ k →
      (s :: rules).filter (isNameless k) = rules.filter (isNameless k) := fun hk =>
    List.filter_cons_of_neg (by simp [isNameless, hs, hk])
  have count : ∀ i, (s.kind :: earlier).count s.kind + i = earlier.count s.kind + (i + 1) := by
    intro i
    rw [List.count_cons_self]
    omega
  constructor
  · intro h
    cases h with
    | named mem hr =>
        rcases List.mem_cons.1 mem with rfl | mem
        · exact absurd (hs.symm.trans hr) (by simp)
        · exact .inr (.named mem hr)
    | @nameless _ k i place =>
        by_cases hk : s.kind = k
        · subst hk
          rw [own] at place
          cases i with
          | zero => exact .inl ⟨rfl, by simpa using place.symm⟩
          | succ i => exact .inr (count i ▸ .nameless (by simpa using place))
        · rw [other hk] at place
          exact .inr (List.count_cons_of_ne hk (l := earlier) ▸ .nameless place)
  · rintro (⟨rfl, rfl⟩ | h)
    · have first : ((r :: rules).filter (isNameless r.kind))[0]? = some r := by rw [own]; rfl
      exact .nameless first
    · cases h with
      | named mem hr => exact .named (List.mem_cons_of_mem _ mem) hr
      | @nameless _ k i place =>
          by_cases hk : s.kind = k
          · subst hk
            rw [count]
            exact .nameless (by rwa [own, List.getElem?_cons_succ])
          · rw [List.count_cons_of_ne hk]
            exact .nameless (by rwa [other hk])

end At

/-- The listed rules of a scope are the rules at their places. -/
theorem mem_nodes_iff {scope p : Path} {n : Node} :
    ∀ {rules : List QualityRule} {earlier : List QualityKind},
      (p, n) ∈ nodes scope earlier rules ↔ ∃ r, n = .quality r ∧ At earlier rules scope p r
  | [], earlier => by
      simp only [nodes, List.not_mem_nil, false_iff, not_exists, not_and]
      intro r _ h
      exact absurd h.mem List.not_mem_nil
  | s :: rest, earlier => by
      have distribute : ∀ {q : Path} {P : QualityRule → Prop},
          ((p = q ∧ n = .quality s) ∨ ∃ r, n = .quality r ∧ P r) ↔
            ∃ r, n = .quality r ∧ ((p = q ∧ r = s) ∨ P r) := by
        intro q P
        constructor
        · rintro (⟨hp, hn⟩ | ⟨r, hn, hP⟩)
          · exact ⟨s, hn, .inl ⟨hp, rfl⟩⟩
          · exact ⟨r, hn, .inr hP⟩
        · rintro ⟨r, hn, ⟨hp, rfl⟩ | hP⟩
          · exact .inl ⟨hp, hn⟩
          · exact .inr ⟨r, hn, hP⟩
      cases hs : s.name with
      | some name =>
          simp only [nodes, hs, List.mem_cons, mem_nodes_iff, Prod.mk.injEq, distribute,
            At.cons_named_iff hs]
      | none =>
          simp only [nodes, hs, List.mem_cons, mem_nodes_iff, Prod.mk.injEq, distribute,
            At.cons_nameless_iff hs]

end QualityRule

/-! ## The list of all parts -/

lemma Model.nodes_eq (m : Model) :
    m.nodes = m.fields.flatMap (Field.nodes ["models", m.name, "fields"]) ++
      (QualityRule.nodes ["models", m.name, "quality"] [] m.quality ++
        [(["models", m.name], .model m)]) := by
  simp [nodes, Field.listNodes_eq_flatMap]

theorem Model.mem_nodes_iff {m : Model} {e : Path × Node} :
    e ∈ m.nodes ↔ (∃ f ∈ m.fields, e ∈ f.nodes ["models", m.name, "fields"]) ∨
      e ∈ QualityRule.nodes ["models", m.name, "quality"] [] m.quality ∨
      e = (["models", m.name], .model m) := by
  rw [nodes_eq, List.mem_append, List.mem_append, List.mem_flatMap, List.mem_singleton]

theorem Contract.mem_nodes_iff {c : Contract} {e : Path × Node} :
    e ∈ c.nodes ↔ e = (["info"], .info c.toIdentity) ∨
      (∃ t, c.terms = some t ∧ e = (["terms"], .terms t)) ∨
      (∃ s ∈ c.servers, e = (["servers", s.name], .server s)) ∨
      (∃ m ∈ c.models, e ∈ m.nodes) ∨ e ∈ QualityRule.nodes ["quality"] [] c.quality := by
  simp only [nodes, List.mem_append, List.mem_cons, List.mem_map, List.mem_flatMap,
    Option.mem_toList, eq_comm (b := e), or_assoc]

/-! ## The sort of part that a path allows -/

/-- The sorts of parts, one for each constructor of `Node`. -/
inductive NodeSort where
  | info
  | terms
  | server
  | model
  | field
  | quality
  deriving DecidableEq

/-- Whether parts of this sort have others below them. -/
def NodeSort.isContainer : NodeSort → Bool
  | .model => true
  | .field => true
  | _ => false

/-- The sort of a part. -/
def Node.sort : Node → NodeSort
  | .info _ => .info
  | .terms _ => .terms
  | .server _ => .server
  | .model _ => .model
  | .field _ => .field
  | .quality _ => .quality

lemma Node.isContainer_eq (n : Node) : n.isContainer = n.sort.isContainer := by
  cases n <;> rfl

lemma Node.entity_eq_of_sort_eq {m n : Node} (h : m.sort = n.sort) : m.entity = n.entity := by
  cases m <;> cases n <;> first | rfl | cases h

namespace Path

/-- The sort of what stands at a path below a part of sort `top`. -/
def sortBelow? (top : NodeSort) : Path → Option NodeSort
  | [] => some top
  | "fields" :: _ :: rest => sortBelow? .field rest
  | "quality" :: _ :: _ => some .quality
  | _ => none

/-- The sort of part that can stand at a path.  Every other segment of a path to a field is a name,
and a name is never looked at. -/
def sort? : Path → Option NodeSort
  | ["info"] => some .info
  | ["terms"] => some .terms
  | ["servers", _] => some .server
  | "models" :: _ :: rest => sortBelow? .model rest
  | "quality" :: _ :: _ => some .quality
  | _ => none

lemma sortBelow?_append {top s : NodeSort} {p : Path} (rest : Path)
    (h : sortBelow? top p = some s) (hs : s.isContainer = true) :
    sortBelow? top (p ++ rest) = sortBelow? s rest := by
  fun_induction sortBelow? top p with
  | case1 top =>
      obtain rfl := Option.some.inj h
      rfl
  | case2 top name below ih =>
      rw [List.cons_append, List.cons_append, sortBelow?]
      exact ih h
  | case3 =>
      obtain rfl := Option.some.inj h
      simp [NodeSort.isContainer] at hs
  | case4 => simp at h

/-- **Below a container a path is read on from there**, whatever the names above are. -/
theorem sort?_append {s : NodeSort} {p : Path} (rest : Path) (h : p.sort? = some s)
    (hs : s.isContainer = true) : Path.sort? (p ++ rest) = sortBelow? s rest := by
  unfold sort? at h
  split at h
  -- a path below a model can go on, all other paths are those of parts without others below
  case h_4 name below => exact sortBelow?_append rest h hs
  case h_6 => simp at h
  all_goals
    obtain rfl := Option.some.inj h
    simp [NodeSort.isContainer] at hs

lemma sort?_append_fields {s : NodeSort} {p : Path} (name : String) (h : p.sort? = some s)
    (hs : s.isContainer = true) : Path.sort? (p ++ ["fields", name]) = some .field := by
  rw [sort?_append _ h hs]
  rfl

end Path

lemma QualityRule.At.sort? {earlier : List QualityKind} {rules : List QualityRule}
    {scope p : Path} {r : QualityRule} (h : At earlier rules scope p r)
    (hs : ∀ name rest, Path.sort? (scope ++ name :: rest) = some .quality) :
    p.sort? = some .quality := by
  cases h with
  | named _ _ => exact hs _ []
  | nameless _ => exact hs _ [_]

lemma QualityRule.sort?_of_mem_nodes {rules : List QualityRule} {p q : Path} {n : Node}
    {s : NodeSort} (hq : q.sort? = some s) (hs : s.isContainer = true)
    (h : (p, n) ∈ nodes (q ++ ["quality"]) [] rules) : p.sort? = some n.sort := by
  obtain ⟨r, rfl, hr⟩ := mem_nodes_iff.1 h
  refine hr.sort? fun name rest => ?_
  rw [List.append_assoc, Path.sort?_append _ hq hs]
  rfl

lemma Field.sort?_of_mem_nodes (f : Field) : ∀ {scope p : Path} {n : Node},
    Path.sort? (scope ++ [f.name]) = some .field → (p, n) ∈ f.nodes scope →
      p.sort? = some n.sort := by
  induction f using induction_on_children with
  | step f ih =>
      intro scope p n hf h
      rcases mem_nodes_iff.1 h with ⟨g, hg, h⟩ | h | h
      · refine ih g hg ?_ h
        simpa using Path.sort?_append_fields g.name hf rfl
      · have hq : (p, n) ∈ QualityRule.nodes ((scope ++ [f.name]) ++ ["quality"]) []
            f.attributes.quality := by simpa using h
        exact QualityRule.sort?_of_mem_nodes hf rfl hq
      · obtain ⟨rfl, rfl⟩ := Prod.mk.inj h
        exact hf

lemma Model.sort?_of_mem_nodes {m : Model} {p : Path} {n : Node} (h : (p, n) ∈ m.nodes) :
    p.sort? = some n.sort := by
  rcases mem_nodes_iff.1 h with ⟨f, _, h⟩ | h | h
  · exact f.sort?_of_mem_nodes rfl h
  · exact QualityRule.sort?_of_mem_nodes (q := ["models", m.name]) rfl rfl h
  · obtain ⟨rfl, rfl⟩ := Prod.mk.inj h
    rfl

/-- **The shape of a path fixes the sort of part that stands there**, in every contract and with
whatever names. -/
theorem Contract.sort?_of_mem_nodes {c : Contract} {p : Path} {n : Node} (h : (p, n) ∈ c.nodes) :
    p.sort? = some n.sort := by
  rcases mem_nodes_iff.1 h with h | ⟨t, _, h⟩ | ⟨s, _, h⟩ | ⟨m, _, h⟩ | h
  · obtain ⟨rfl, rfl⟩ := Prod.mk.inj h
    rfl
  · obtain ⟨rfl, rfl⟩ := Prod.mk.inj h
    rfl
  · obtain ⟨rfl, rfl⟩ := Prod.mk.inj h
    rfl
  · exact Model.sort?_of_mem_nodes h
  · obtain ⟨r, rfl, hr⟩ := QualityRule.mem_nodes_iff.1 h
    exact hr.sort? fun _ _ => rfl

/-- What is read from an index has the sort that its path allows, also if names repeat. -/
theorem Contract.sort?_of_get?_index {c : Contract} {p : Path} {n : Node}
    (h : c.index.get? p = some n) : p.sort? = some n.sort :=
  sort?_of_mem_nodes (Entries.mem_of_get?_ofList h)

/-! ## Parts by their paths -/

namespace Contract

/-- The model `m` stands at `p`. -/
def ModelAt (c : Contract) (p : Path) (m : Model) : Prop := m ∈ c.models ∧ p = ["models", m.name]

/-- The field `f` stands at `p`: as a field of a model, or inside of another field. -/
inductive FieldAt (c : Contract) : Path → Field → Prop
  | top {m : Model} {f : Field} (model : m ∈ c.models) (field : f ∈ m.fields) :
      FieldAt c ["models", m.name, "fields", f.name] f
  | inner {p : Path} {f g : Field} (owner : FieldAt c p f) (field : g ∈ f.children) :
      FieldAt c (p ++ ["fields", g.name]) g

/-- The rule `r` stands at `p`: in the scope of the contract, of a model or of a field. -/
inductive RuleAt (c : Contract) : Path → QualityRule → Prop
  | contract {p : Path} {r : QualityRule} (rule : QualityRule.At [] c.quality ["quality"] p r) :
      RuleAt c p r
  | model {p q : Path} {m : Model} {r : QualityRule} (owner : c.ModelAt q m)
      (rule : QualityRule.At [] m.quality (q ++ ["quality"]) p r) : RuleAt c p r
  | field {p q : Path} {f : Field} {r : QualityRule} (owner : c.FieldAt q f)
      (rule : QualityRule.At [] f.attributes.quality (q ++ ["quality"]) p r) : RuleAt c p r

/-- A model or a field stands at `p`. -/
def ContainerAt (c : Contract) (p : Path) : Prop := (∃ m, c.ModelAt p m) ∨ ∃ f, c.FieldAt p f

/-- The part `n` stands at `p`. -/
def NodeAt (c : Contract) (p : Path) : Node → Prop
  | .info i => i = c.toIdentity ∧ p = ["info"]
  | .terms t => c.terms = some t ∧ p = ["terms"]
  | .server s => s ∈ c.servers ∧ p = ["servers", s.name]
  | .model m => c.ModelAt p m
  | .field f => c.FieldAt p f
  | .quality r => c.RuleAt p r

variable {c : Contract} {p : Path}

lemma nodeAt_of_mem_field_nodes (f : Field) : ∀ (scope : Path) {p : Path} {n : Node},
    c.FieldAt (scope ++ [f.name]) f → (p, n) ∈ f.nodes scope → c.NodeAt p n := by
  induction f using Field.induction_on_children with
  | step f ih =>
      intro scope p n hf h
      rcases Field.mem_nodes_iff.1 h with ⟨g, hg, h⟩ | h | h
      · exact ih g hg _ (by simpa using hf.inner hg) h
      · obtain ⟨r, rfl, hr⟩ := QualityRule.mem_nodes_iff.1 h
        exact RuleAt.field hf (by simpa using hr)
      · obtain ⟨rfl, rfl⟩ := Prod.mk.inj h
        exact hf

lemma nodeAt_of_mem_model_nodes {m : Model} {n : Node} (hm : m ∈ c.models)
    (h : (p, n) ∈ m.nodes) : c.NodeAt p n := by
  rcases Model.mem_nodes_iff.1 h with ⟨f, hf, h⟩ | h | h
  · exact nodeAt_of_mem_field_nodes f ["models", m.name, "fields"] (.top hm hf) h
  · obtain ⟨r, rfl, hr⟩ := QualityRule.mem_nodes_iff.1 h
    exact RuleAt.model ⟨hm, rfl⟩ hr
  · obtain ⟨rfl, rfl⟩ := Prod.mk.inj h
    exact ⟨hm, rfl⟩

lemma mem_nodes_of_mem_model_nodes {m : Model} {e : Path × Node} (hm : m ∈ c.models)
    (h : e ∈ m.nodes) : e ∈ c.nodes :=
  mem_nodes_iff.2 (.inr (.inr (.inr (.inl ⟨m, hm, h⟩))))

/-- All parts of a field of the contract are parts of the contract. -/
lemma FieldAt.nodes_subset {f : Field} (h : c.FieldAt p f) :
    ∃ scope, p = scope ++ [f.name] ∧ ∀ e ∈ f.nodes scope, e ∈ c.nodes := by
  induction h with
  | @top m f hm hf =>
      refine ⟨["models", m.name, "fields"], rfl, fun e he => ?_⟩
      exact mem_nodes_of_mem_model_nodes hm (Model.mem_nodes_iff.2 (.inl ⟨f, hf, he⟩))
  | @inner p f g _ hg ih =>
      obtain ⟨scope, rfl, hsub⟩ := ih
      refine ⟨scope ++ [f.name, "fields"], by simp, fun e he => ?_⟩
      exact hsub e (Field.mem_nodes_iff.2 (.inl ⟨g, hg, he⟩))

lemma RuleAt.mem_nodes {r : QualityRule} (h : c.RuleAt p r) : (p, Node.quality r) ∈ c.nodes := by
  cases h with
  | contract hr =>
      exact mem_nodes_iff.2 (.inr (.inr (.inr (.inr (QualityRule.mem_nodes_iff.2 ⟨r, rfl, hr⟩)))))
  | model hm hr =>
      obtain ⟨hm, rfl⟩ := hm
      exact mem_nodes_of_mem_model_nodes hm
        (Model.mem_nodes_iff.2 (.inr (.inl (QualityRule.mem_nodes_iff.2 ⟨r, rfl, hr⟩))))
  | field hf hr =>
      obtain ⟨scope, rfl, hsub⟩ := hf.nodes_subset
      have listed : (p, Node.quality r) ∈ QualityRule.nodes (scope ++ [_, "quality"]) [] _ :=
        QualityRule.mem_nodes_iff.2 ⟨r, rfl, by simpa using hr⟩
      exact hsub _ (Field.mem_nodes_iff.2 (.inr (.inl listed)))

/-- **What is listed is what stands at its path**, at any depth. -/
theorem mem_nodes_iff_nodeAt {n : Node} : (p, n) ∈ c.nodes ↔ c.NodeAt p n := by
  constructor
  · intro h
    rcases mem_nodes_iff.1 h with h | ⟨t, ht, h⟩ | ⟨s, hs, h⟩ | ⟨m, hm, h⟩ | h
    · obtain ⟨rfl, rfl⟩ := Prod.mk.inj h
      exact ⟨rfl, rfl⟩
    · obtain ⟨rfl, rfl⟩ := Prod.mk.inj h
      exact ⟨ht, rfl⟩
    · obtain ⟨rfl, rfl⟩ := Prod.mk.inj h
      exact ⟨hs, rfl⟩
    · exact nodeAt_of_mem_model_nodes hm h
    · obtain ⟨r, rfl, hr⟩ := QualityRule.mem_nodes_iff.1 h
      exact RuleAt.contract hr
  · intro h
    cases n with
    | info i =>
        obtain ⟨rfl, rfl⟩ := h
        exact mem_nodes_iff.2 (.inl rfl)
    | terms t =>
        obtain ⟨ht, rfl⟩ := h
        exact mem_nodes_iff.2 (.inr (.inl ⟨t, ht, rfl⟩))
    | server s =>
        obtain ⟨hs, rfl⟩ := h
        exact mem_nodes_iff.2 (.inr (.inr (.inl ⟨s, hs, rfl⟩)))
    | model m =>
        obtain ⟨hm, rfl⟩ := h
        exact mem_nodes_of_mem_model_nodes hm (Model.mem_nodes_iff.2 (.inr (.inr rfl)))
    | field f =>
        obtain ⟨scope, rfl, hsub⟩ := FieldAt.nodes_subset h
        exact hsub _ (f.self_mem_nodes scope)
    | quality r => exact RuleAt.mem_nodes h

/-! ## Containers above containers -/

lemma ModelAt.sort? {m : Model} (h : c.ModelAt p m) : p.sort? = some .model :=
  sort?_of_mem_nodes ((mem_nodes_iff_nodeAt (n := .model m)).2 h)

lemma FieldAt.sort? {f : Field} (h : c.FieldAt p f) : p.sort? = some .field :=
  sort?_of_mem_nodes ((mem_nodes_iff_nodeAt (n := .field f)).2 h)

lemma ContainerAt.sort? (h : c.ContainerAt p) : ∃ s, p.sort? = some s ∧ s.isContainer = true := by
  rcases h with ⟨m, h⟩ | ⟨f, h⟩
  · exact ⟨_, h.sort?, rfl⟩
  · exact ⟨_, h.sort?, rfl⟩

lemma ContainerAt.exists_modelAt (h : c.ContainerAt p) (hs : p.sort? = some .model) :
    ∃ m, c.ModelAt p m := by
  rcases h with h | ⟨f, hf⟩
  · exact h
  · exact absurd (hf.sort?.symm.trans hs) (by decide)

lemma ContainerAt.exists_fieldAt (h : c.ContainerAt p) (hs : p.sort? = some .field) :
    ∃ f, c.FieldAt p f := by
  rcases h with ⟨m, hm⟩ | h
  · exact absurd (hm.sort?.symm.trans hs) (by decide)
  · exact h

lemma FieldAt.exists_owner {f : Field} (h : c.FieldAt p f) :
    ∃ q, p = q ++ ["fields", f.name] ∧ c.ContainerAt q := by
  cases h with
  | top hm hf => exact ⟨_, rfl, .inl ⟨_, hm, rfl⟩⟩
  | inner owner _ => exact ⟨_, rfl, .inr ⟨_, owner⟩⟩

lemma prefix_append_pair {p q : Path} {a b : String} (h : p <+: q ++ [a, b]) :
    p <+: q ∨ p = q ++ [a] ∨ p = q ++ [a, b] := by
  have hab : q ++ [a, b] = q ++ [a] ++ [b] := by simp
  rw [hab, List.prefix_concat_iff, List.prefix_concat_iff] at h
  rcases h with h | h | h
  · exact .inr (.inr (by rw [h, hab]))
  · exact .inr (.inl h)
  · exact .inl h

/-- **With a container all containers above it are there.**  At a beginning of its path there is
one wherever the shape of the beginning allows a part at all. -/
theorem containerAt_of_isPrefix {q : Path} {s : NodeSort} (hq : c.ContainerAt q) (hp : p <+: q)
    (hs : p.sort? = some s) : c.ContainerAt p := by
  have top : ∀ {m : Model}, m ∈ c.models → p <+: ["models", m.name] → c.ContainerAt p := by
    intro m hm hp
    rcases prefix_append_pair (q := []) hp with h | rfl | rfl
    · obtain rfl := List.prefix_nil.1 h
      simp [Path.sort?] at hs
    · simp [Path.sort?] at hs
    · exact .inl ⟨m, hm, rfl⟩
  rcases hq with ⟨m, hm, rfl⟩ | ⟨f, hf⟩
  · exact top hm hp
  · induction hf with
    | @top m f hm hf =>
        rcases prefix_append_pair (q := ["models", m.name]) hp with h | rfl | rfl
        · exact top hm h
        · simp [Path.sort?, Path.sortBelow?] at hs
        · exact .inr ⟨f, .top hm hf⟩
    | @inner q f g hf hg ih =>
        rcases prefix_append_pair hp with h | rfl | rfl
        · exact ih h
        · rw [Path.sort?_append _ hf.sort? rfl] at hs
          simp [Path.sortBelow?] at hs
        · exact .inr ⟨g, hf.inner hg⟩

end Contract

end ContractDrift
