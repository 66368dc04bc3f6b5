import ContractDrift.Proofs.Bare
import ContractDrift.Proofs.SelfComparison
import ContractDrift.Proofs.Subtrees
import ContractDrift.Proofs.Symmetry

/-!
# Putting one part into a contract

A server, a model, a field with all that is inside of it or a quality rule is put into a contract,
at any place of the list that it belongs to and at any depth.  All other parts stay where they are:
what stands above the new part is the same up to what has a path of its own, and a nameless rule
that comes after those of its kind takes the next number and moves none.  So the comparison sees
the new part and what is inside of it, and the changelog has one entry.

* `QualityRule.Insertion`, `Field.Insertion`, `Model.Insertion`, `Contract.Insertion` — one version
  is the other one with a part put in, at some path.
* `Spliced` — the same for lists of parts with their paths; `Contract.Insertion.spliced`.
* `Contract.Insertion.not_mem` — the path is free, if names are distinct.
* **`Contract.Insertion.get?_index_bare`** — nothing else moves.
* **`Contract.changelog_of_insertion`** — the changelogs in both directions.
-/

namespace ContractDrift

/-! ## Putting a part in -/

/-- A rule `r` is put into the rules of a scope and stands at `p`: under a name that no rule of the
scope has, or after the nameless rules of its kind. -/
inductive QualityRule.Insertion (scope : Path) :
    List QualityRule → List QualityRule → Path → QualityRule → Prop
  | named {before after : List QualityRule} {r : QualityRule} {name : String}
      (named : r.name = some name) (fresh : ∀ s ∈ before ++ after, s.name ≠ some name) :
      Insertion scope (before ++ after) (before ++ r :: after) (scope ++ [name]) r
  | nameless {before after : List QualityRule} {r : QualityRule} (nameless : r.name = none)
      (last : ∀ s ∈ after, s.isNameless r.kind = false) :
      Insertion scope (before ++ after) (before ++ r :: after)
        (scope ++ [r.kind.name, Text.digits (before.countP (isNameless r.kind))]) r

/-- A part `n` is put into the fields of a scope and stands at `p`: a field whose name is free, with
whatever is inside, a part inside of a nested field, or a rule of a field. -/
inductive Field.Insertion : Path → List Field → List Field → Path → Node → Prop
  | here {scope : Path} {before after : List Field} {f : Field}
      (fresh : ∀ g ∈ before ++ after, g.name ≠ f.name) :
      Insertion scope (before ++ after) (before ++ f :: after) (scope ++ [f.name]) (.field f)
  | inside {scope p : Path} {n : Node} {before after fields fields' : List Field}
      {attributes : FieldAttributes} {container : Container}
      (inner : Insertion (scope ++ [attributes.name, "fields"]) fields fields' p n) :
      Insertion scope (before ++ .nested attributes container fields :: after)
        (before ++ .nested attributes container fields' :: after) p n
  | rule {scope p : Path} {before after : List Field} {f : Field} {rules : List QualityRule}
      {r : QualityRule} (rule : QualityRule.Insertion (scope ++ [f.name, "quality"])
        f.attributes.quality rules p r) :
      Insertion scope (before ++ f :: after)
        (before ++ f.withAttributes { f.attributes with quality := rules } :: after) p (.quality r)

/-- A part `n` is put into the model, among its fields or rules, and stands at `p`. -/
inductive Model.Insertion (m : Model) : Model → Path → Node → Prop
  | field {fields : List Field} {p : Path} {n : Node}
      (field : Field.Insertion ["models", m.name, "fields"] m.fields fields p n) :
      Insertion m { m with fields } p n
  | rule {rules : List QualityRule} {p : Path} {r : QualityRule}
      (rule : QualityRule.Insertion ["models", m.name, "quality"] m.quality rules p r) :
      Insertion m { m with quality := rules } p (.quality r)

/-- A part `n` is put into the contract and stands at `p`: a server or a model whose name is free, a
part inside of a model, or a rule about the contract. -/
inductive Contract.Insertion (c : Contract) : Contract → Path → Node → Prop
  | server {before after : List Server} {s : Server} (servers : c.servers = before ++ after)
      (fresh : ∀ t ∈ c.servers, t.name ≠ s.name) :
      Insertion c { c with servers := before ++ s :: after } ["servers", s.name] (.server s)
  | model {before after : List Model} {m : Model} (models : c.models = before ++ after)
      (fresh : ∀ o ∈ c.models, o.name ≠ m.name) :
      Insertion c { c with models := before ++ m :: after } ["models", m.name] (.model m)
  | inside {before after : List Model} {m m' : Model} {p : Path} {n : Node}
      (models : c.models = before ++ m :: after) (model : m.Insertion m' p n) :
      Insertion c { c with models := before ++ m' :: after } p n
  | rule {rules : List QualityRule} {p : Path} {r : QualityRule}
      (rule : QualityRule.Insertion ["quality"] c.quality rules p r) :
      Insertion c { c with quality := rules } p (.quality r)

/-! ## Lists with a part put in -/

/-- The parts with their paths, bare. -/
def bareNodes (l : List (Path × Node)) : List (Path × Node) := l.map (Prod.map id Node.bare)

/-- The second list is the first one with the part `n` at `p` and what stands below it put in at
some place; the other parts keep their places and paths and are the same but for what has a path of
its own. -/
inductive Spliced (p : Path) (n : Node) : List (Path × Node) → List (Path × Node) → Prop
  | intro {before before' below after after' : List (Path × Node)}
      (left : bareNodes before = bareNodes before') (right : bareNodes after = bareNodes after')
      (inside : ∀ e ∈ below, n.isContainer = true ∧ p <+: e.1 ∧ e.1 ≠ p) :
      Spliced p n (before ++ after) (before' ++ (below ++ [(p, n)]) ++ after')

namespace Spliced

variable {p q : Path} {n : Node} {l l' k k' : List (Path × Node)}

lemma prepend (hk : bareNodes k = bareNodes k') (h : Spliced p n l l') :
    Spliced p n (k ++ l) (k' ++ l') := by
  cases h with
  | @intro before before' below after after' left right inside =>
      have left : bareNodes (k ++ before) = bareNodes (k' ++ before') := by
        simpa [bareNodes] using congrArg₂ (· ++ ·) hk left
      simpa only [List.append_assoc] using Spliced.intro left right inside

lemma append (h : Spliced p n l l') (hk : bareNodes k = bareNodes k') :
    Spliced p n (l ++ k) (l' ++ k') := by
  cases h with
  | @intro before before' below after after' left right inside =>
      have right : bareNodes (after ++ k) = bareNodes (after' ++ k') := by
        simpa [bareNodes] using congrArg₂ (· ++ ·) right hk
      simpa only [List.append_assoc] using Spliced.intro left right inside

/-- A part with all that stands below it, put in between. -/
lemma between {below : List (Path × Node)}
    (inside : ∀ e ∈ below, n.isContainer = true ∧ p <+: e.1 ∧ e.1 ≠ p) (k l : List (Path × Node)) :
    Spliced p n (k ++ l) (k ++ (below ++ [(p, n)] ++ l)) := by
  have put : Spliced p n (k ++ l) (k ++ (below ++ [(p, n)]) ++ l) := .intro rfl rfl inside
  rwa [List.append_assoc] at put

/-- A part with nothing below it, put in between. -/
lemma single (p : Path) (n : Node) (k l : List (Path × Node)) :
    Spliced p n (k ++ l) (k ++ (p, n) :: l) :=
  between (fun _ he => absurd he List.not_mem_nil) k l

/-- One of several parts has changed inside. -/
lemma flatMap {α : Type} {nodes : α → List (Path × Node)} {x x' : α} (before after : List α)
    (h : Spliced p n (nodes x) (nodes x')) :
    Spliced p n ((before ++ x :: after).flatMap nodes) ((before ++ x' :: after).flatMap nodes) := by
  simp only [List.flatMap_append, List.flatMap_cons]
  exact prepend rfl (h.append rfl)

end Spliced

/-- A bare list is read like the list itself. -/
lemma lookupEntry_bareNodes (q : Path) : ∀ l : List (Path × Node),
    lookupEntry q (bareNodes l) = (lookupEntry q l).map Node.bare
  | [] => rfl
  | (p, n) :: rest => by
      have ih := lookupEntry_bareNodes q rest
      by_cases h : p = q
      · simp [bareNodes, lookupEntry, h]
      · simpa [bareNodes, lookupEntry, h] using ih

lemma bareNodes_reverse (l : List (Path × Node)) : bareNodes l.reverse = (bareNodes l).reverse :=
  List.map_reverse

lemma pathsOf_bareNodes (l : List (Path × Node)) : pathsOf (bareNodes l) = pathsOf l := by
  simp [pathsOf, bareNodes]

namespace Spliced

variable {p q : Path} {n : Node} {l l' : List (Path × Node)}

/-- At its path the new part is read, if the path was free. -/
lemma get?_self (h : Spliced p n l l') (hp : p ∉ pathsOf l) :
    (Entries.ofList l').get? p = some n := by
  cases h with
  | @intro before before' below after after' left right inside =>
      have hafter : p ∉ pathsOf after' := by
        rw [← pathsOf_bareNodes, ← right, pathsOf_bareNodes]
        exact fun hmem => hp (by simpa [pathsOf] using Or.inr hmem)
      have none : lookupEntry p after'.reverse = none := by
        rw [lookupEntry_eq_none_iff, List.map_reverse, List.mem_reverse]
        exact hafter
      rw [Entries.get?_ofList]
      simp [lookupEntry_append, lookupEntry, none]

/-- At other paths, and not below the new part, the bare parts are the same. -/
lemma get?_bare (h : Spliced p n l l') (hq : q ≠ p) (hbelow : n.isContainer = true → ¬ p <+: q) :
    ((Entries.ofList l').get? q).map Node.bare = ((Entries.ofList l).get? q).map Node.bare := by
  cases h with
  | @intro before before' below after after' left right inside =>
      have new : lookupEntry q (below ++ [(p, n)]).reverse = none := by
        rw [lookupEntry_eq_none_iff]
        intro hmem
        simp only [List.reverse_append, List.reverse_singleton, List.singleton_append,
          List.map_cons, List.mem_cons, List.map_reverse, List.mem_reverse, List.mem_map] at hmem
        rcases hmem with rfl | ⟨e, he, rfl⟩
        · exact hq rfl
        · obtain ⟨hcont, hpre, _⟩ := inside e he
          exact hbelow hcont hpre
      rw [Entries.get?_ofList, Entries.get?_ofList, ← lookupEntry_bareNodes,
        ← lookupEntry_bareNodes, bareNodes_reverse, bareNodes_reverse]
      have other : lookupEntry q (bareNodes (below ++ [(p, n)])).reverse = none := by
        rw [← bareNodes_reverse, lookupEntry_bareNodes, new, Option.map_none]
      simp only [bareNodes, List.map_append, List.reverse_append] at *
      simp only [lookupEntry_append, other, left, right]
      simp

end Spliced

/-- Copies of one element that exclude each other are one. -/
lemma eq_singleton_of_pairwise {α : Type} {R : α → α → Prop} {l : List α} {x : α}
    (h : l.Pairwise R) (hx : ¬ R x x) (all : ∀ y ∈ l, y = x) (hmem : x ∈ l) : l = [x] := by
  cases l with
  | nil => cases hmem
  | cons y rest =>
      obtain rfl := all y List.mem_cons_self
      cases rest with
      | nil => rfl
      | cons z rest =>
          obtain rfl := all z (by simp)
          exact absurd ((List.pairwise_cons.1 h).1 z List.mem_cons_self) hx

/-! ## The parts of both versions -/

namespace QualityRule

variable {scope p : Path} {rules rules' : List QualityRule} {r : QualityRule}
  {earlier earlier' : List QualityKind}

/-- Of the kinds before, only the counts matter of those that occur. -/
lemma nodes_congr : ∀ {rules : List QualityRule} {earlier earlier' : List QualityKind},
    (∀ s ∈ rules, s.name = none → earlier.count s.kind = earlier'.count s.kind) →
      nodes scope earlier rules = nodes scope earlier' rules
  | [], _, _, _ => rfl
  | s :: rest, earlier, earlier', h => by
      cases hs : s.name with
      | some name =>
          have ih := nodes_congr fun t ht => h t (List.mem_cons_of_mem _ ht)
          simp only [nodes, hs, ih]
      | none =>
          have count := h s List.mem_cons_self hs
          have ih : nodes scope (s.kind :: earlier) rest =
              nodes scope (s.kind :: earlier') rest := by
            refine nodes_congr fun t ht hname => ?_
            rw [List.count_cons, List.count_cons, h t (List.mem_cons_of_mem _ ht) hname]
          simp only [nodes, hs, count, ih]

lemma spliced_named {name : String} (named : r.name = some name) (after : List QualityRule) :
    ∀ (before : List QualityRule) (earlier : List QualityKind),
      Spliced (scope ++ [name]) (.quality r) (nodes scope earlier (before ++ after))
        (nodes scope earlier (before ++ r :: after))
  | [], earlier => by
      simpa [nodes, named] using
        Spliced.single (scope ++ [name]) (.quality r) [] (nodes scope earlier after)
  | s :: before, earlier => by
      have ih := spliced_named named after before
      cases hs : s.name with
      | some other =>
          simpa [nodes, hs] using (ih earlier).prepend (k := [_]) rfl
      | none =>
          simpa [nodes, hs] using (ih (s.kind :: earlier)).prepend (k := [_]) rfl

/-- The number of a nameless rule is the count of those of its kind before it. -/
lemma spliced_nameless (nameless : r.name = none) {after : List QualityRule}
    (last : ∀ s ∈ after, s.isNameless r.kind = false) :
    ∀ (before : List QualityRule) (earlier : List QualityKind),
      Spliced (scope ++ [r.kind.name,
          Text.digits (earlier.count r.kind + before.countP (isNameless r.kind))]) (.quality r)
        (nodes scope earlier (before ++ after)) (nodes scope earlier (before ++ r :: after))
  | [], earlier => by
      have rest : nodes scope (r.kind :: earlier) after = nodes scope earlier after := by
        refine nodes_congr fun s hs hname => List.count_cons_of_ne ?_
        rintro hkind
        have := last s hs
        simp [isNameless, hname, hkind] at this
      simpa [nodes, nameless, rest] using
        Spliced.single (scope ++ [r.kind.name, Text.digits (earlier.count r.kind)]) (.quality r) []
          (nodes scope earlier after)
  | s :: before, earlier => by
      have ih := spliced_nameless nameless last before
      cases hs : s.name with
      | some other =>
          simpa [nodes, hs, isNameless] using (ih earlier).prepend (k := [_]) rfl
      | none =>
          have count : (s.kind :: earlier).count r.kind + before.countP (isNameless r.kind)
              = earlier.count r.kind + (s :: before).countP (isNameless r.kind) := by
            simp only [List.count_cons, List.countP_cons, isNameless, hs, Option.isNone_none,
              Bool.true_and]
            omega
          rw [← count]
          simpa [nodes, hs] using (ih (s.kind :: earlier)).prepend (k := [_]) rfl

namespace Insertion

theorem spliced (h : Insertion scope rules rules' p r) :
    Spliced p (.quality r) (nodes scope [] rules) (nodes scope [] rules') := by
  cases h with
  | named named _ => exact spliced_named named _ _ []
  | nameless nameless last => simpa using spliced_nameless nameless last _ []

/-- The path of the new rule is free: no rule has its name, and no rule has its number. -/
theorem not_mem (h : Insertion scope rules rules' p r) : p ∉ pathsOf (nodes scope [] rules) := by
  intro hmem
  obtain ⟨n, hmem⟩ := mem_pathsOf.1 hmem
  obtain ⟨s, _, hs⟩ := mem_nodes_iff.1 hmem
  cases h with
  | @named before after r name _ fresh =>
      obtain ⟨hmem, hname⟩ := At.named_iff.1 hs
      exact fresh s hmem hname
  | @nameless before after r _ last =>
      have none : after.filter (isNameless r.kind) = [] :=
        List.filter_eq_nil_iff.2 fun s hs => by simp [last s hs]
      rw [← Nat.zero_add (before.countP _), ← List.count_nil (a := r.kind), At.nameless_iff,
        List.filter_append, none, List.append_nil, List.countP_eq_length_filter,
        List.getElem?_eq_none le_rfl] at hs
      cases hs

lemma scope_isPrefix (h : Insertion scope rules rules' p r) : scope <+: p := by
  cases h with
  | named _ _ => exact List.prefix_append _ _
  | nameless _ _ => exact List.prefix_append _ _

end Insertion

end QualityRule

/-! A container is listed after what is inside of it and after its rules, and the word that follows
its path tells them apart. -/

section Container

variable {q p : Path} {n : Node} {inside rules : List (Path × Node)}
  (fields : ∀ p ∈ pathsOf inside, q ++ ["fields"] <+: p)
  (quality : ∀ p ∈ pathsOf rules, q ++ ["quality"] <+: p)

include fields quality

lemma mem_pathsOf_of_fields (hp : q ++ ["fields"] <+: p)
    (h : p ∈ pathsOf (inside ++ (rules ++ [(q, n)]))) : p ∈ pathsOf inside := by
  simp only [pathsOf, List.map_append, List.mem_append, List.map_cons, List.map_nil,
    List.mem_singleton] at h
  rcases h with h | h | rfl
  · exact h
  · exact absurd (segment_unique hp (quality p h)) (by decide)
  · exact absurd hp not_append_isPrefix

lemma mem_pathsOf_of_quality (hp : q ++ ["quality"] <+: p)
    (h : p ∈ pathsOf (inside ++ (rules ++ [(q, n)]))) : p ∈ pathsOf rules := by
  simp only [pathsOf, List.map_append, List.mem_append, List.map_cons, List.map_nil,
    List.mem_singleton] at h
  rcases h with h | h | rfl
  · exact absurd (segment_unique hp (fields p h)) (by decide)
  · exact h
  · exact absurd hp not_append_isPrefix

lemma isPrefix_of_mem_container {e : Path × Node} (h : e ∈ inside ++ rules) :
    q <+: e.1 ∧ e.1 ≠ q := by
  have below : ∀ {word : String}, q ++ [word] <+: e.1 → q <+: e.1 ∧ e.1 ≠ q := by
    intro word hword
    refine ⟨(List.prefix_append _ _).trans hword, fun heq => ?_⟩
    rw [heq] at hword
    exact not_append_isPrefix hword
  rcases List.mem_append.1 h with h | h
  · exact below (fields e.1 (mem_pathsOf.2 ⟨e.2, h⟩))
  · exact below (quality e.1 (mem_pathsOf.2 ⟨e.2, h⟩))

/-- A container is put in among others. -/
lemma Spliced.container {α : Type} {nodes : α → List (Path × Node)} {x : α}
    (hx : nodes x = inside ++ (rules ++ [(q, n)])) (hcont : n.isContainer = true)
    (before after : List α) :
    Spliced q n ((before ++ after).flatMap nodes) ((before ++ x :: after).flatMap nodes) := by
  rw [List.flatMap_append, List.flatMap_append, List.flatMap_cons, hx, ← List.append_assoc inside]
  exact Spliced.between (fun e he => ⟨hcont, isPrefix_of_mem_container fields quality he⟩) _ _

end Container

/-- Of parts with different names, what stands below the path of one belongs to it. -/
lemma mem_pathsOf_of_isPrefix {α : Type} {scope p : Path} {name : α → String}
    {nodes : α → List (Path × Node)} {l : List α} {x : α} (names : (l.map name).Nodup) (hx : x ∈ l)
    (below : ∀ y ∈ l, ∀ p ∈ pathsOf (nodes y), scope ++ [name y] <+: p)
    (hp : scope ++ [name x] <+: p) (h : p ∈ pathsOf (l.flatMap nodes)) : p ∈ pathsOf (nodes x) := by
  obtain ⟨n, h⟩ := mem_pathsOf.1 h
  obtain ⟨y, hy, h⟩ := List.mem_flatMap.1 h
  have hname : name y = name x := segment_unique (below y hy p (mem_pathsOf.2 ⟨n, h⟩)) hp
  obtain rfl := List.inj_on_of_nodup_map names hy hx hname
  exact mem_pathsOf.2 ⟨n, h⟩

namespace Field

variable {scope p : Path} {n : Node} {f : Field} {fields fields' : List Field}

lemma scope_prefix_of_mem (h : p ∈ pathsOf (fields.flatMap (nodes scope))) : scope <+: p := by
  obtain ⟨n, h⟩ := mem_pathsOf.1 h
  obtain ⟨f, _, hf⟩ := List.mem_flatMap.1 h
  exact (List.prefix_append _ _).trans (f.prefix_of_mem_nodes (mem_pathsOf.2 ⟨n, hf⟩))

lemma fields_isPrefix (scope : Path) (f : Field) :
    ∀ p ∈ pathsOf (f.children.flatMap (nodes (scope ++ [f.name, "fields"]))),
      scope ++ [f.name] ++ ["fields"] <+: p := by
  intro p hp
  simpa using scope_prefix_of_mem hp

lemma quality_isPrefix (scope : Path) (f : Field) :
    ∀ p ∈ pathsOf (QualityRule.nodes (scope ++ [f.name, "quality"]) [] f.attributes.quality),
      scope ++ [f.name] ++ ["quality"] <+: p := by
  intro p hp
  simpa using QualityRule.scope_prefix_of_mem hp

@[simp] lemma children_withAttributes (a : FieldAttributes) (f : Field) :
    (f.withAttributes a).children = f.children := by
  cases f <;> rfl

/-- Fields that differ in their rules are the same bare field. -/
lemma bare_withQuality (f : Field) (rules : List QualityRule) :
    (f.withAttributes { f.attributes with quality := rules }).bare = f.bare := by
  cases f <;> rfl

namespace Insertion

lemma scope_isPrefix (h : Insertion scope fields fields' p n) : scope <+: p := by
  induction h with
  | here _ => exact List.prefix_append _ _
  | inside _ ih => exact (List.prefix_append _ _).trans ih
  | rule rule => exact (List.prefix_append _ _).trans rule.scope_isPrefix

/-- **Putting a part into fields** puts it and what is inside of it into their list of parts. -/
theorem spliced (h : Insertion scope fields fields' p n) :
    Spliced p n (fields.flatMap (nodes scope)) (fields'.flatMap (nodes scope)) := by
  induction h with
  | @here scope before after f _ =>
      exact Spliced.container (fields_isPrefix scope f) (quality_isPrefix scope f)
        (nodes_eq scope f) rfl before after
  | @inside scope p n before after fields fields' attributes container _ ih =>
      refine Spliced.flatMap before after ?_
      rw [nodes_eq, nodes_eq]
      exact ih.append (by simp [bareNodes, Node.bare, bare, name])
  | @rule scope p before after f rules r rule =>
      refine Spliced.flatMap before after ?_
      rw [nodes_eq, nodes_eq]
      have self : bareNodes [(scope ++ [f.name], .field f)] = bareNodes [(scope ++ [f.name],
          .field (f.withAttributes { f.attributes with quality := rules }))] := by
        simp [bareNodes, Node.bare, bare_withQuality]
      have hname : (f.withAttributes { f.attributes with quality := rules }).name = f.name := by
        simp [name]
      rw [children_withAttributes, attributes_withAttributes, hname]
      exact (rule.spliced.append self).prepend rfl

/-- **The path of a new part among fields is free.** -/
theorem not_mem (h : Insertion scope fields fields' p n) (names : (fields.map name).Nodup)
    (distinct : ∀ f ∈ fields, f.NamesDistinct) : p ∉ pathsOf (fields.flatMap (nodes scope)) := by
  have below : ∀ {scope : Path} {fields : List Field}, ∀ g ∈ fields,
      ∀ p ∈ pathsOf (g.nodes scope), scope ++ [g.name] <+: p := fun g _ _ => g.prefix_of_mem_nodes
  induction h with
  | here fresh =>
      intro hmem
      obtain ⟨n, hmem⟩ := mem_pathsOf.1 hmem
      obtain ⟨g, hg, hmem⟩ := List.mem_flatMap.1 hmem
      have hp := g.prefix_of_mem_nodes (mem_pathsOf.2 ⟨n, hmem⟩)
      exact fresh g hg (segment_unique hp List.prefix_rfl)
  | @inside scope p n before after fields fields' attributes container inner ih =>
      intro hmem
      have hf : Field.nested attributes container fields ∈
          before ++ .nested attributes container fields :: after := List.mem_append_cons_self
      have hp : scope ++ [attributes.name] ++ ["fields"] <+: p := by
        simpa using inner.scope_isPrefix
      have hself := mem_pathsOf_of_isPrefix names hf below ((List.prefix_append _ _).trans hp) hmem
      rw [nodes_eq] at hself
      have := mem_pathsOf_of_fields (fields_isPrefix _ _) (quality_isPrefix _ _) hp hself
      cases distinct _ hf with
      | intro _ names children => exact ih names children this
  | @rule scope p before after f rules r rule =>
      intro hmem
      have hf : f ∈ before ++ f :: after := List.mem_append_cons_self
      have hp : scope ++ [f.name] ++ ["quality"] <+: p := by simpa using rule.scope_isPrefix
      have hself := mem_pathsOf_of_isPrefix names hf below ((List.prefix_append _ _).trans hp) hmem
      rw [nodes_eq] at hself
      exact rule.not_mem
        (mem_pathsOf_of_quality (fields_isPrefix _ _) (quality_isPrefix _ _) hp hself)

end Insertion

end Field

namespace Model

variable {m m' : Model} {p : Path} {n : Node}

lemma fields_isPrefix (m : Model) : ∀ p ∈ pathsOf (m.fields.flatMap
    (Field.nodes ["models", m.name, "fields"])), ["models", m.name] ++ ["fields"] <+: p :=
  fun _ => Field.scope_prefix_of_mem

lemma quality_isPrefix (m : Model) : ∀ p ∈ pathsOf (QualityRule.nodes
    ["models", m.name, "quality"] [] m.quality), ["models", m.name] ++ ["quality"] <+: p :=
  fun _ => QualityRule.scope_prefix_of_mem

namespace Insertion

lemma isPrefix (h : m.Insertion m' p n) : ["models", m.name] <+: p := by
  cases h with
  | field field => exact List.IsPrefix.trans ⟨["fields"], rfl⟩ field.scope_isPrefix
  | rule rule => exact List.IsPrefix.trans ⟨["quality"], rfl⟩ rule.scope_isPrefix

theorem spliced (h : m.Insertion m' p n) : Spliced p n m.nodes m'.nodes := by
  cases h with
  | field field =>
      rw [nodes_eq, nodes_eq]
      exact field.spliced.append (by simp [bareNodes, Node.bare, bare])
  | rule rule =>
      rw [nodes_eq, nodes_eq]
      exact (rule.spliced.append (by simp [bareNodes, Node.bare, bare])).prepend rfl

theorem not_mem (h : m.Insertion m' p n) (names : m.NamesDistinct) : p ∉ pathsOf m.nodes := by
  rw [nodes_eq]
  intro hmem
  cases h with
  | field field =>
      exact field.not_mem names.names names.fields
        (mem_pathsOf_of_fields m.fields_isPrefix m.quality_isPrefix field.scope_isPrefix hmem)
  | rule rule =>
      exact rule.not_mem
        (mem_pathsOf_of_quality m.fields_isPrefix m.quality_isPrefix rule.scope_isPrefix hmem)

end Insertion

end Model

namespace Contract

variable {c c' : Contract} {p q : Path} {n : Node}

/-- What begins with the word of a section belongs to the section. -/
lemma mem_pathsOf_section {word : String} {nodes : List (Path × Node)}
    (hs : (word, nodes) ∈ c.sections) (hp : [word] <+: p) (h : p ∈ pathsOf c.nodes) :
    p ∈ pathsOf nodes := by
  rw [nodes_eq_sections] at h
  have names : (c.sections.map Prod.fst).Nodup := by simp [sections]
  have hp : [] ++ [word] <+: p := hp
  exact mem_pathsOf_of_isPrefix names hs prefix_of_mem_sections hp h

/-- What begins with the word `models` belongs to the models. -/
lemma mem_pathsOf_models (hp : ["models"] <+: p) (h : p ∈ pathsOf c.nodes) :
    p ∈ pathsOf (c.models.flatMap Model.nodes) :=
  mem_pathsOf_section (by simp [sections]) hp h

namespace Insertion

/-- **Putting a part into a contract** puts it and what is inside of it into the list of parts. -/
theorem spliced (h : c.Insertion c' p n) : Spliced p n c.nodes c'.nodes := by
  cases h with
  | @server before after s servers _ =>
      simp only [nodes, servers]
      refine Spliced.append (Spliced.append (Spliced.prepend rfl ?_) rfl) rfl
      rw [List.map_append, List.map_append, List.map_cons]
      exact Spliced.single _ _ _ _
  | @model before after m models _ =>
      simp only [nodes, models]
      refine Spliced.append (Spliced.prepend rfl ?_) rfl
      exact Spliced.container m.fields_isPrefix m.quality_isPrefix m.nodes_eq rfl before after
  | inside models model =>
      simp only [nodes, models]
      exact Spliced.append (Spliced.prepend rfl (Spliced.flatMap _ _ model.spliced)) rfl
  | rule rule => exact Spliced.prepend rfl rule.spliced

/-- **The path of a new part is free**, if no name repeats. -/
theorem not_mem (h : c.Insertion c' p n) (names : c.NamesDistinct) : p ∉ pathsOf c.nodes := by
  intro hmem
  have below : ∀ m ∈ c.models, ∀ p ∈ pathsOf m.nodes, ["models"] ++ [m.name] <+: p :=
    fun _ _ _ => Model.prefix_of_mem_nodes
  cases h with
  | @server before after s servers fresh =>
      have servers : ("servers", c.servers.map fun t => (["servers", t.name], .server t)) ∈
          c.sections := by simp [sections]
      obtain ⟨k, hk⟩ := mem_pathsOf.1 (mem_pathsOf_section servers ⟨[s.name], rfl⟩ hmem)
      obtain ⟨t, ht, heq⟩ := List.mem_map.1 hk
      exact fresh t ht (by simpa using (Prod.mk.inj heq).1)
  | @model before after m models fresh =>
      obtain ⟨k, hk⟩ := mem_pathsOf.1 (mem_pathsOf_models ⟨[m.name], rfl⟩ hmem)
      obtain ⟨o, ho, hk⟩ := List.mem_flatMap.1 hk
      have hp := below o ho _ (mem_pathsOf.2 ⟨k, hk⟩)
      have hm : ["models"] ++ [m.name] <+: ["models", m.name] := List.prefix_rfl
      exact fresh o ho (segment_unique hp hm)
  | @inside before after m m' p n models model =>
      have hm : m ∈ c.models := models ▸ List.mem_append_cons_self
      have first := mem_pathsOf_models (List.IsPrefix.trans ⟨[m.name], rfl⟩ model.isPrefix) hmem
      have inside := mem_pathsOf_of_isPrefix names.names hm below model.isPrefix first
      exact model.not_mem (names.models m hm) inside
  | rule rule =>
      exact rule.not_mem (mem_pathsOf_section (by simp [sections]) rule.scope_isPrefix hmem)

variable (h : c.Insertion c' p n)

include h

lemma get?_index_new (names : c.NamesDistinct) : c'.index.get? p = some n :=
  h.spliced.get?_self (h.not_mem names)

lemma get?_index_old (names : c.NamesDistinct) : c.index.get? p = none := by
  rw [index, Entries.get?_ofList, lookupEntry_eq_none_iff, List.map_reverse, List.mem_reverse]
  exact h.not_mem names

/-- **Nothing else moves**: at every other path that is not below the new part, both versions have
the same bare part. -/
theorem get?_index_bare (hq : q ≠ p) (hbelow : n.isContainer = true → ¬ p <+: q) :
    (c'.index.get? q).map Node.bare = (c.index.get? q).map Node.bare :=
  h.spliced.get?_bare hq hbelow

/-- At the other paths nothing has changed: a bare part has no difference from itself. -/
lemma changesAt_eq_nil (definite : c.IsDefinite) (numeric : c.HasNumericBounds) (hq : q ≠ p)
    (hbelow : n.isContainer = true → ¬ p <+: q) :
    Comparison.changesAt q (c.index.get? q) (c'.index.get? q) = [] := by
  have same := h.get?_index_bare hq hbelow
  cases hm : c.index.get? q with
  | none =>
      rw [hm, Option.map_none, Option.map_eq_none_iff] at same
      rw [same]
      rfl
  | some m =>
      rw [hm, Option.map_some, Option.map_eq_some_iff] at same
      obtain ⟨m', hm', hbare⟩ := same
      have none : m.differences m' = [] := by
        rw [← Node.differences_bare, hbare, Node.differences_bare]
        refine List.eq_nil_iff_forall_not_mem.2 fun g hg => ?_
        obtain ⟨_, hnan⟩ := (Node.mem_differences_self_iff (definite.of_get?_index hm)).1 hg
        exact numeric.of_get?_index hm _ hnan rfl
      simp [hm', Comparison.changesAt, none]

/-- **The changes** are the new part and what is inside of it, if it is a container. -/
theorem eq_or_below_of_mem_changes (names : c.NamesDistinct) (definite : c.IsDefinite)
    (numeric : c.HasNumericBounds) {d : Change} (hd : d ∈ (c.compare c').changes) :
    d = .added p n ∨ ∃ q k, d = .added q k ∧ n.isContainer = true ∧ p <+: q ∧ q ≠ p := by
  have new := h.get?_index_new names
  have old := h.get?_index_old names
  rw [mem_changes_iff] at hd
  by_cases hq : d.path = p
  · left
    rw [hq, old, new] at hd
    exact List.mem_singleton.1 hd
  · right
    by_cases hbelow : n.isContainer = true ∧ p <+: d.path
    · obtain ⟨hcont, hpre⟩ := hbelow
      -- the path of a container that one version does not have leads to nothing there
      have none : c.index.get? d.path = none :=
        get?_index_eq_none_of_isPrefix hpre (sort?_of_get?_index new)
          (by rwa [← Node.isContainer_eq]) old
      rw [none] at hd
      cases hk : c'.index.get? d.path with
      | none => simp [hk, Comparison.changesAt] at hd
      | some k =>
          rw [hk] at hd
          exact ⟨d.path, k, List.mem_singleton.1 hd, hcont, hpre, hq⟩
    · rw [h.changesAt_eq_nil definite numeric hq fun hcont hpre => hbelow ⟨hcont, hpre⟩] at hd
      cases hd

/-- **One change is not covered**: the one of the new part. -/
theorem uncovered_changes (names : c.NamesDistinct) (definite : c.IsDefinite)
    (numeric : c.HasNumericBounds) :
    ((c.compare c').changes.filter fun d => ¬ d.IsCovered (c.compare c').changes)
      = [.added p n] := by
  have hmem : .added p n ∈ (c.compare c').changes :=
    added_mem_iff.2 ⟨h.get?_index_old names, h.get?_index_new names⟩
  have uncovered : ¬ (Change.added p n).IsCovered (c.compare c').changes := by
    rw [Change.isCovered_added_iff]
    rintro ⟨q, k, hk, _, hpre, hne⟩
    rcases h.eq_or_below_of_mem_changes names definite numeric hk with heq | ⟨_, _, heq, _, hp, _⟩
    · exact hne (by cases heq; rfl)
    · cases heq
      exact hne (hpre.eq_of_length_le hp.length_le)
  have unique : ∀ d ∈ (c.compare c').changes.filter
      (fun d => ¬ d.IsCovered (c.compare c').changes), d = .added p n := by
    intro d hd
    obtain ⟨hd, hcov⟩ := List.mem_filter.1 hd
    rcases h.eq_or_below_of_mem_changes names definite numeric hd with rfl | ⟨q, k, rfl, hc, hp, hq⟩
    · rfl
    · have : (Change.added q k).IsCovered (c.compare c').changes :=
        Change.isCovered_added_iff.2 ⟨p, n, hmem, hc, hp, hq.symm⟩
      simp [this] at hcov
  refine eq_singleton_of_pairwise ((pairwise_changes c c').filter _) (fun hshare => ?_) unique ?_
  · exact absurd (hshare rfl).1 (by simp [Change.kind])
  · exact List.mem_filter.2 ⟨hmem, by simpa using uncovered⟩

end Insertion

end Contract

/-! ## Changelogs -/

/-- A container covers a change in the opposite direction as well. -/
lemma Change.isCovered_reverse_iff {all : List Change} {d : Change} :
    d.reverse.IsCovered (all.map reverse) ↔ d.IsCovered all := by
  have kind : d.reverse.kind = d.kind.reverse := by cases d <;> rfl
  have path : d.reverse.path = d.path := by cases d <;> rfl
  have same : ∀ k l : ChangeKind, k = l.reverse ↔ k.reverse = l := fun k l => by
    cases k <;> cases l <;> simp [ChangeKind.reverse]
  simp only [IsCovered, List.mem_map, exists_exists_and_eq_and, kind, path, same]
  refine exists_congr fun e => and_congr_right fun _ => ?_
  cases e <;> simp [Change.kind, ChangeKind.reverse, reverse, node, Change.path]

lemma Field.IsDefinite.plain (name : String) (type : DataType) : (plain name type).IsDefinite :=
  .intro (by simp [Field.plain]) (by simp [Field.plain]) (by simp [Field.plain])
    (by simp [Field.plain, children])

namespace Contract

variable {c c' : Contract} {p : Path} {n : Node}

/-- What is left uncovered in one direction is left in the other one. -/
lemma uncovered_changes_swap (old new : Contract) :
    ((new.compare old).changes.filter fun d => ¬ d.IsCovered (new.compare old).changes)
      = ((old.compare new).changes.filter
          fun d => ¬ d.IsCovered (old.compare new).changes).map Change.reverse := by
  have swap : (new.compare old).changes = (old.compare new).changes.map Change.reverse :=
    (Comparison.between_swap old.index new.index).1
  rw [swap, List.filter_map]
  refine congrArg (List.map _) (List.filter_congr fun d _ => ?_)
  simp only [Function.comp_apply, Change.isCovered_reverse_iff]

lemma changes_changelog_of_uncovered {old new : Contract} {d : Change}
    (h : ((old.compare new).changes.filter fun e => ¬ e.IsCovered (old.compare new).changes) = [d])
    (settings : ChangelogSettings) :
    (old.changelog new settings).changes = [d.grade settings] := by
  have perm : (old.changelog new settings).changes.Perm _ := changes_changelog_perm
  rw [h, List.map_singleton] at perm
  exact perm.eq_singleton

/-- **One part put in is one entry.**  If a server, a model, a field with whatever is inside of it
or a quality rule is put into a contract in which no name repeats and no bound is NaN, anywhere and
at any depth, the changelog says that it came, and the one in the opposite direction that it went,
and nothing else.  A contract that was loaded is definite, since its free values are JSON, which has
no NaN. -/
theorem changelog_of_insertion (h : c.Insertion c' p n) (names : c.NamesDistinct)
    (definite : c.IsDefinite) (numeric : c.HasNumericBounds) (settings : ChangelogSettings) :
    (c.changelog c' settings).changes = [(Change.added p n).grade settings] ∧
      (c'.changelog c settings).changes = [(Change.removed p n).grade settings] := by
  have came := h.uncovered_changes names definite numeric
  constructor
  · exact changes_changelog_of_uncovered came settings
  · refine changes_changelog_of_uncovered ?_ settings
    rw [uncovered_changes_swap, came]
    rfl

/-- A field with a field and a nameless rule inside comes into a nested one, in front of a field
that is there. -/
theorem changelog_of_insertion_of_inner_field :
    let buyer (fields : List Field) : Field := .nested { name := "buyer" } .object fields
    let address : Field := .nested { name := "address", quality := [{ kind := .text }] } .object
      [.plain "city" .string]
    let old := single [.plain "id" .int, buyer [.plain "email" .string]]
    let new := single [.plain "id" .int, buyer [address, .plain "email" .string]]
    let p := ["models", "orders", "fields", "buyer", "fields", "address"]
    (old.changelog new {}).changes = [(Change.added p (.field address)).grade {}] ∧
      (new.changelog old {}).changes = [(Change.removed p (.field address)).grade {}] := by
  intro buyer address old new p
  let email : Field := .plain "email" .string
  have inner : Field.Insertion ["models", "orders", "fields", "buyer", "fields"]
      ([] ++ [email]) ([] ++ address :: [email]) p (.field address) :=
    .here (by simp [email, address, Field.plain, Field.name])
  have fields : Field.Insertion ["models", "orders", "fields"]
      ([.plain "id" .int] ++ [buyer [email]]) ([.plain "id" .int] ++ [buyer [address, email]]) p
        (.field address) := .inside inner
  have models : old.models =
      [] ++ [{ name := "orders", fields := [.plain "id" .int, buyer [email]] }] := rfl
  have put : old.Insertion new p (.field address) := .inside models (.field fields)
  have names : old.NamesDistinct := by
    refine namesDistinct_single (by simp [buyer, Field.plain, Field.name]) fun f hf => ?_
    rcases List.mem_pair.1 hf with rfl | rfl
    · exact Field.namesDistinct_plain _ _
    · exact .intro List.nodup_nil (List.nodup_singleton _)
        fun g hg => List.mem_singleton.1 hg ▸ Field.namesDistinct_plain _ _
  have definite : old.IsDefinite := by
    refine ⟨by simp [old, single, named], fun m hm f hf => ?_, by simp [old, single, named],
      by simp [old, single, named]⟩
    obtain rfl := List.mem_singleton.1 hm
    rcases List.mem_pair.1 hf with rfl | rfl
    · exact .plain _ _
    · exact .intro (by simp [buyer]) (by simp [buyer]) (by simp [buyer])
        fun g hg => List.mem_singleton.1 hg ▸ .plain _ _
  have numeric : old.HasNumericBounds := by
    simp [HasNumericBounds, old, nodes, single, named, Model.nodes, Field.listNodes, Field.nodes,
      Field.plain, buyer, QualityRule.nodes, Node.bounds, Constraints.bounds, Field.constraints?]
  exact changelog_of_insertion put names definite numeric {}

end Contract

end ContractDrift
