import ContractDrift.Proofs.DistinctNames
import Mathlib.Data.List.Perm.Basic

/-!
# Contracts that are the same up to their order

Servers, models, fields and rules are declared in some order, and nearly nothing depends on it.
Two contracts are the same *up to order* if the parts of the one can be put in the order of the
other, at every depth, so that parts at the same place are related.  What related means is left
open: `R` may ask that nothing differs, or only that no comparison tells the two apart.

Nameless rules are told apart by their place among those of their kind, so a reordering of rules
must keep that place.

* `Rearranged`, `QualityRule.UpToOrder`, `Field.UpToOrder`, `Model.UpToOrder`,
  `Contract.UpToOrder` — the relation, from lists to contracts.
* `Corresponds` — the same for lists of parts with their paths, where no order is left.
* `Contract.UpToOrder.corresponds` — what is related up to order corresponds.
* **`Contract.upToOrder_iff`** — if no name repeats, a contract can be rebuilt from its index: two
  contracts are the same up to order exactly if at each path both have related parts or none.
-/

namespace ContractDrift

/-! ## Lists -/

section Lists

variable {α β γ : Type} {S : α → β → Prop} {l : List α} {m : List β}

/-- The one list can be put in the order of the other, related elements at the same place. -/
def Rearranged (S : α → β → Prop) (l : List α) (m : List β) : Prop :=
  ∃ k, l.Perm k ∧ List.Forall₂ S k m

lemma exists_right_of_forall₂ {x : α} (h : List.Forall₂ S l m) (hx : x ∈ l) : ∃ y ∈ m, S x y := by
  induction h with
  | nil => exact absurd hx List.not_mem_nil
  | @cons a b _ _ hab _ ih =>
      rcases List.mem_cons.1 hx with rfl | hx
      · exact ⟨b, List.mem_cons_self, hab⟩
      · obtain ⟨y, hy, hxy⟩ := ih hx
        exact ⟨y, List.mem_cons_of_mem _ hy, hxy⟩

lemma getElem?_of_forall₂ {x : α} {i : ℕ} (h : List.Forall₂ S l m) (hx : l[i]? = some x) :
    ∃ y, m[i]? = some y ∧ S x y := by
  obtain ⟨hi, rfl⟩ := List.getElem?_eq_some_iff.1 hx
  have him : i < m.length := h.length_eq ▸ hi
  exact ⟨m[i], List.getElem?_eq_getElem him, h.get hi him⟩

lemma forall₂_of_getElem? (right : ∀ (i : ℕ) x, l[i]? = some x → ∃ y, m[i]? = some y ∧ S x y)
    (left : ∀ (i : ℕ) y, m[i]? = some y → ∃ x, l[i]? = some x) : List.Forall₂ S l m := by
  have hlen : l.length = m.length := by
    rcases Nat.lt_trichotomy l.length m.length with h | h | h
    · obtain ⟨x, hx⟩ := left _ _ (List.getElem?_eq_getElem h)
      simp at hx
    · exact h
    · obtain ⟨y, hy, _⟩ := right _ _ (List.getElem?_eq_getElem h)
      simp at hy
  refine List.forall₂_iff_get.2 ⟨hlen, fun i hi hj => ?_⟩
  obtain ⟨y, hy, hxy⟩ := right i _ (List.getElem?_eq_getElem hi)
  rw [List.getElem?_eq_getElem hj] at hy
  obtain rfl := Option.some.inj hy
  exact hxy

namespace Rearranged

lemma exists_right {x : α} (h : Rearranged S l m) (hx : x ∈ l) : ∃ y ∈ m, S x y := by
  obtain ⟨k, hk, hkm⟩ := h
  exact exists_right_of_forall₂ hkm (hk.mem_iff.1 hx)

lemma exists_left {y : β} (h : Rearranged S l m) (hy : y ∈ m) : ∃ x ∈ l, S x y := by
  obtain ⟨k, hk, hkm⟩ := h
  obtain ⟨x, hx, hxy⟩ := exists_right_of_forall₂ hkm.flip hy
  exact ⟨x, hk.mem_iff.2 hx, hxy⟩

/-- **Distinct names give the reordering.**  Two lists in which no name repeats and that have the
same names are rearranged, if elements with the same name are related. -/
theorem of_names {f : α → γ} {g : β → γ} (hl : (l.map f).Nodup) (hm : (m.map g).Nodup)
    (names : ∀ n, n ∈ l.map f ↔ n ∈ m.map g)
    (related : ∀ x ∈ l, ∀ y ∈ m, f x = g y → S x y) : Rearranged S l m := by
  have hperm : (l.map f).Perm (m.map g) := (List.perm_ext_iff_of_nodup hl hm).2 names
  have hfirst : List.Forall₂ (fun x n => f x = n) l (l.map f) := by simp
  obtain ⟨k, hk, hkm⟩ : Relation.Comp List.Perm (List.Forall₂ fun x n => f x = n) l (m.map g) := by
    rw [← List.forall₂_comp_perm_eq_perm_comp_forall₂]
    exact ⟨_, hfirst, hperm⟩
  have hkm := List.forall₂_map_right_iff.1 hkm
  refine ⟨k, hk, List.forall₂_iff_get.2 ⟨hkm.length_eq, fun i hi hj => ?_⟩⟩
  refine related _ (hk.mem_iff.2 (List.get_mem _ _)) _ (List.get_mem _ _) ?_
  exact hkm.get hi hj

end Rearranged

end Lists

/-! ## The relation -/

section Relation

variable (R : Node → Node → Prop)

/-- The rules of a scope can be put in the order of other ones.  The order among the nameless rules
of each kind stays. -/
def QualityRule.UpToOrder (rules others : List QualityRule) : Prop :=
  ∃ reordered, rules.Perm reordered ∧
    (∀ k, rules.filter (isNameless k) = reordered.filter (isNameless k)) ∧
    List.Forall₂ (fun r s => r.name = s.name ∧ R (.quality r) (.quality s)) reordered others

/-- The fields are related, and so is what is inside of them, up to order. -/
inductive Field.UpToOrder : Field → Field → Prop
  | intro {f g : Field} {reordered : List Field} (name : f.name = g.name)
      (own : R (.field f) (.field g))
      (rules : QualityRule.UpToOrder R f.attributes.quality g.attributes.quality)
      (order : f.children.Perm reordered)
      (inside : List.Forall₂ Field.UpToOrder reordered g.children) : Field.UpToOrder f g

/-- The models are related, and so is what is inside of them, up to order. -/
structure Model.UpToOrder (m n : Model) : Prop where
  name : m.name = n.name
  own : R (.model m) (.model n)
  rules : QualityRule.UpToOrder R m.quality n.quality
  fields : Rearranged (Field.UpToOrder R) m.fields n.fields

/-- The contracts are related in all their parts, up to order. -/
structure Contract.UpToOrder (c d : Contract) : Prop where
  identity : R (.info c.toIdentity) (.info d.toIdentity)
  terms : Option.Rel (fun s t => R (.terms s) (.terms t)) c.terms d.terms
  servers : Rearranged (fun s t => s.name = t.name ∧ R (.server s) (.server t))
    c.servers d.servers
  models : Rearranged (Model.UpToOrder R) c.models d.models
  rules : QualityRule.UpToOrder R c.quality d.quality

end Relation

/-! ### Every contract is the same as itself -/

section Refl

variable {R : Node → Node → Prop} (refl : ∀ n, R n n)

include refl

lemma QualityRule.upToOrder_refl (rules : List QualityRule) : UpToOrder R rules rules :=
  ⟨rules, .refl _, fun _ => rfl, List.forall₂_same.2 fun _ _ => ⟨rfl, refl _⟩⟩

lemma Field.upToOrder_refl (f : Field) : UpToOrder R f f := by
  induction f using Field.induction_on_children with
  | step f ih =>
      exact .intro rfl (refl _) (QualityRule.upToOrder_refl refl _) (.refl _)
        (List.forall₂_same.2 ih)

/-- Fields in another order are the same fields up to order. -/
lemma Field.rearranged_of_perm {fields others : List Field} (h : fields.Perm others) :
    Rearranged (UpToOrder R) fields others :=
  ⟨others, h, List.forall₂_same.2 fun f _ => f.upToOrder_refl refl⟩

end Refl

/-! ## From the relation to the paths -/

/-- Each part of the one list has a related part at the same path in the other. -/
structure Corresponds (R : Node → Node → Prop) (l m : List (Path × Node)) : Prop where
  right : ∀ p n, (p, n) ∈ l → ∃ n', (p, n') ∈ m ∧ R n n'
  left : ∀ p n', (p, n') ∈ m → ∃ n, (p, n) ∈ l ∧ R n n'

namespace Corresponds

variable {R : Node → Node → Prop} {l l' m m' : List (Path × Node)}

lemma nil : Corresponds R [] [] := ⟨by simp, by simp⟩

lemma singleton {p : Path} {n n' : Node} (h : R n n') : Corresponds R [(p, n)] [(p, n')] := by
  constructor
  · intro q k hk
    obtain ⟨rfl, rfl⟩ := Prod.mk.inj (List.mem_singleton.1 hk)
    exact ⟨n', List.mem_singleton_self _, h⟩
  · intro q k hk
    obtain ⟨rfl, rfl⟩ := Prod.mk.inj (List.mem_singleton.1 hk)
    exact ⟨n, List.mem_singleton_self _, h⟩

lemma rel_of_singleton {p q : Path} {n n' : Node} (h : Corresponds R [(p, n)] [(q, n')]) :
    R n n' := by
  obtain ⟨k, hk, hr⟩ := h.right p n (List.mem_singleton_self _)
  obtain rfl := (Prod.mk.inj (List.mem_singleton.1 hk)).2
  exact hr

lemma append (h : Corresponds R l m) (h' : Corresponds R l' m') :
    Corresponds R (l ++ l') (m ++ m') := by
  constructor
  · intro p n hn
    rcases List.mem_append.1 hn with hn | hn
    · obtain ⟨n', hn', hr⟩ := h.right p n hn
      exact ⟨n', List.mem_append_left _ hn', hr⟩
    · obtain ⟨n', hn', hr⟩ := h'.right p n hn
      exact ⟨n', List.mem_append_right _ hn', hr⟩
  · intro p n' hn'
    rcases List.mem_append.1 hn' with hn' | hn'
    · obtain ⟨n, hn, hr⟩ := h.left p n' hn'
      exact ⟨n, List.mem_append_left _ hn, hr⟩
    · obtain ⟨n, hn, hr⟩ := h'.left p n' hn'
      exact ⟨n, List.mem_append_right _ hn, hr⟩

lemma flatMap {α β : Type} {S : α → β → Prop} {xs : List α} {ys : List β}
    {f : α → List (Path × Node)} {g : β → List (Path × Node)} (h : Rearranged S xs ys)
    (each : ∀ x ∈ xs, ∀ y, S x y → Corresponds R (f x) (g y)) :
    Corresponds R (xs.flatMap f) (ys.flatMap g) := by
  constructor
  · intro p n hn
    obtain ⟨x, hx, hn⟩ := List.mem_flatMap.1 hn
    obtain ⟨y, hy, hxy⟩ := h.exists_right hx
    obtain ⟨n', hn', hr⟩ := (each x hx y hxy).right p n hn
    exact ⟨n', List.mem_flatMap.2 ⟨y, hy, hn'⟩, hr⟩
  · intro p n' hn'
    obtain ⟨y, hy, hn'⟩ := List.mem_flatMap.1 hn'
    obtain ⟨x, hx, hxy⟩ := h.exists_left hy
    obtain ⟨n, hn, hr⟩ := (each x hx y hxy).left p n' hn'
    exact ⟨n, List.mem_flatMap.2 ⟨x, hx, hn⟩, hr⟩

end Corresponds

section Forward

variable {R : Node → Node → Prop}
  (kinds : ∀ {r s : QualityRule}, R (.quality r) (.quality s) → r.kind = s.kind)

include kinds

lemma QualityRule.isNameless_congr {k : QualityKind} {r s : QualityRule} (name : r.name = s.name)
    (related : R (.quality r) (.quality s)) : r.isNameless k = s.isNameless k := by
  rw [isNameless, isNameless, name, kinds related]

lemma QualityRule.UpToOrder.corresponds {rules others : List QualityRule}
    (h : UpToOrder R rules others) (scope : Path) :
    Corresponds R (nodes scope [] rules) (nodes scope [] others) := by
  obtain ⟨l, hperm, hplace, hrel⟩ := h
  have hfilter : ∀ k, List.Forall₂ (fun r s => r.name = s.name ∧ R (.quality r) (.quality s))
      (l.filter (isNameless k)) (others.filter (isNameless k)) := fun k =>
    List.rel_filter (fun _ _ hrs => Bool.eq_iff_iff.1 (isNameless_congr kinds hrs.1 hrs.2)) hrel
  constructor
  · intro p n hn
    obtain ⟨r, rfl, hr⟩ := mem_nodes_iff.1 hn
    cases hr with
    | @named _ name mem hname =>
        obtain ⟨s, hs, hrs, hR⟩ := exists_right_of_forall₂ hrel (hperm.mem_iff.1 mem)
        exact ⟨.quality s, mem_nodes_iff.2 ⟨s, rfl, .named hs (hrs ▸ hname)⟩, hR⟩
    | nameless place =>
        rw [hplace] at place
        obtain ⟨s, hs, _, hR⟩ := getElem?_of_forall₂ (hfilter _) place
        exact ⟨.quality s, mem_nodes_iff.2 ⟨s, rfl, .nameless hs⟩, hR⟩
  · intro p n hn
    obtain ⟨s, rfl, hs⟩ := mem_nodes_iff.1 hn
    cases hs with
    | @named _ name mem hname =>
        obtain ⟨r, hr, hrs, hR⟩ := exists_right_of_forall₂ hrel.flip mem
        have hr := hperm.mem_iff.2 hr
        exact ⟨.quality r, mem_nodes_iff.2 ⟨r, rfl, .named hr (hrs.trans hname)⟩, hR⟩
    | nameless place =>
        obtain ⟨r, hr, _, hR⟩ := getElem?_of_forall₂ (hfilter _).flip place
        rw [← hplace] at hr
        exact ⟨.quality r, mem_nodes_iff.2 ⟨r, rfl, .nameless hr⟩, hR⟩

lemma Field.UpToOrder.corresponds (f : Field) : ∀ {g : Field} (scope : Path), UpToOrder R f g →
    Corresponds R (f.nodes scope) (g.nodes scope) := by
  induction f using Field.induction_on_children with
  | step f ih =>
      intro g scope h
      cases h with
      | intro name own rules order inside =>
          rw [nodes_eq, nodes_eq, ← name]
          refine .append (.flatMap ⟨_, order, inside⟩ ?_)
            (.append (rules.corresponds kinds _) (.singleton own))
          exact fun x hx y hxy => ih x hx _ hxy

lemma Model.UpToOrder.corresponds {m n : Model} (h : UpToOrder R m n) :
    Corresponds R m.nodes n.nodes := by
  rw [nodes_eq, nodes_eq, ← h.name]
  refine .append (.flatMap h.fields ?_) (.append (h.rules.corresponds kinds _) (.singleton h.own))
  exact fun f _ g hfg => Field.UpToOrder.corresponds kinds f _ hfg

/-- **What is the same up to order has related parts at the same paths.** -/
theorem Contract.UpToOrder.corresponds {c d : Contract} (h : UpToOrder R c d) :
    Corresponds R c.nodes d.nodes := by
  have terms : Corresponds R (c.terms.toList.map fun t => (["terms"], .terms t))
      (d.terms.toList.map fun t => (["terms"], .terms t)) := by
    have hterms := h.terms
    generalize c.terms = s at hterms ⊢
    generalize d.terms = t at hterms ⊢
    cases hterms with
    | none => exact .nil
    | some hst => exact .singleton hst
  have servers : Corresponds R (c.servers.map fun s => (["servers", s.name], .server s))
      (d.servers.map fun s => (["servers", s.name], .server s)) := by
    rw [List.map_eq_flatMap, List.map_eq_flatMap]
    refine .flatMap h.servers fun s _ t hst => ?_
    rw [← hst.1]
    exact .singleton hst.2
  have models : Corresponds R (c.models.flatMap Model.nodes) (d.models.flatMap Model.nodes) :=
    .flatMap h.models fun m _ n hmn => hmn.corresponds kinds
  simp only [nodes]
  exact .append (.append (.append (.append (.singleton h.identity) terms) servers) models)
    (h.rules.corresponds kinds _)

end Forward

/-! ## From the paths to the relation

The parts below a path are found again by their beginning, so what corresponds as a whole
corresponds part by part.
-/

namespace Corresponds

variable {R : Node → Node → Prop}

/-- Parts picked by their paths correspond if all do. -/
lemma restrict {l l' m m' : List (Path × Node)} (P : Path → Prop) (h : Corresponds R l m)
    (hl : ∀ p n, (p, n) ∈ l' ↔ (p, n) ∈ l ∧ P p) (hm : ∀ p n, (p, n) ∈ m' ↔ (p, n) ∈ m ∧ P p) :
    Corresponds R l' m' := by
  constructor
  · intro p n hn
    obtain ⟨hn, hp⟩ := (hl p n).1 hn
    obtain ⟨n', hn', hr⟩ := h.right p n hn
    exact ⟨n', (hm p n').2 ⟨hn', hp⟩, hr⟩
  · intro p n' hn'
    obtain ⟨hn', hp⟩ := (hm p n').1 hn'
    obtain ⟨n, hn, hr⟩ := h.left p n' hn'
    exact ⟨n, (hl p n).2 ⟨hn, hp⟩, hr⟩

section Below

variable {α : Type} {scope : Path} {name : α → String} {nodes : α → List (Path × Node)}

/-- Below a name that does not repeat are the parts of one element. -/
lemma mem_flatMap_below {l : List α} (names : (l.map name).Nodup)
    (below : ∀ x ∈ l, ∀ p ∈ pathsOf (nodes x), scope ++ [name x] <+: p) {x : α} (hx : x ∈ l)
    (p : Path) (n : Node) :
    (p, n) ∈ nodes x ↔ (p, n) ∈ l.flatMap nodes ∧ scope ++ [name x] <+: p := by
  constructor
  · intro h
    exact ⟨List.mem_flatMap.2 ⟨x, hx, h⟩, below x hx p (mem_pathsOf.2 ⟨n, h⟩)⟩
  · rintro ⟨h, hp⟩
    obtain ⟨y, hy, h⟩ := List.mem_flatMap.1 h
    have hxy := segment_unique (below y hy p (mem_pathsOf.2 ⟨n, h⟩)) hp
    rwa [← List.inj_on_of_nodup_map names hy hx hxy]

variable {l m : List α} (hl : (l.map name).Nodup) (hm : (m.map name).Nodup)
  (below : ∀ x ∈ l, ∀ p ∈ pathsOf (nodes x), scope ++ [name x] <+: p)
  (below' : ∀ x ∈ m, ∀ p ∈ pathsOf (nodes x), scope ++ [name x] <+: p)

include hl hm below below'

/-- Elements with the same name have corresponding parts. -/
lemma of_flatMap (h : Corresponds R (l.flatMap nodes) (m.flatMap nodes)) {x y : α} (hx : x ∈ l)
    (hy : y ∈ m) (hxy : name x = name y) : Corresponds R (nodes x) (nodes y) := by
  refine h.restrict (fun p => scope ++ [name x] <+: p) (mem_flatMap_below hl below hx) ?_
  rw [hxy]
  exact mem_flatMap_below hm below' hy

/-- **Lists with corresponding parts are rearranged**, elements with the same name at the same
place. -/
theorem rearranged {S : α → α → Prop} (self : ∀ x, ∃ n, (scope ++ [name x], n) ∈ nodes x)
    (h : Corresponds R (l.flatMap nodes) (m.flatMap nodes))
    (related : ∀ x ∈ l, ∀ y ∈ m, name x = name y → Corresponds R (nodes x) (nodes y) → S x y) :
    Rearranged S l m := by
  refine .of_names hl hm (fun s => ⟨fun hs => ?_, fun hs => ?_⟩) fun x hx y hy hxy => ?_
  · obtain ⟨x, hx, rfl⟩ := List.mem_map.1 hs
    obtain ⟨n, hn⟩ := self x
    obtain ⟨n', hn', _⟩ := h.right _ n (List.mem_flatMap.2 ⟨x, hx, hn⟩)
    obtain ⟨y, hy, hn'⟩ := List.mem_flatMap.1 hn'
    have hyx := segment_unique (below' y hy _ (mem_pathsOf.2 ⟨n', hn'⟩)) List.prefix_rfl
    exact List.mem_map.2 ⟨y, hy, hyx⟩
  · obtain ⟨y, hy, rfl⟩ := List.mem_map.1 hs
    obtain ⟨n', hn'⟩ := self y
    obtain ⟨n, hn, _⟩ := h.left _ n' (List.mem_flatMap.2 ⟨y, hy, hn'⟩)
    obtain ⟨x, hx, hn⟩ := List.mem_flatMap.1 hn
    have hxy := segment_unique (below x hx _ (mem_pathsOf.2 ⟨n, hn⟩)) List.prefix_rfl
    exact List.mem_map.2 ⟨x, hx, hxy⟩
  · exact related x hx y hy hxy (h.of_flatMap hl hm below below' hx hy hxy)

end Below

/-- The parts of a container by their paths: what is inside, the rules, the container itself. -/
lemma mem_container_iff {q : Path} {n : Node} {inside rules : List (Path × Node)}
    (fields : ∀ p ∈ pathsOf inside, q ++ ["fields"] <+: p)
    (quality : ∀ p ∈ pathsOf rules, q ++ ["quality"] <+: p) (p : Path) (k : Node) :
    ((p, k) ∈ inside ↔ (p, k) ∈ inside ++ (rules ++ [(q, n)]) ∧ q ++ ["fields"] <+: p) ∧
    ((p, k) ∈ rules ↔ (p, k) ∈ inside ++ (rules ++ [(q, n)]) ∧ q ++ ["quality"] <+: p) ∧
    ((p, k) ∈ [(q, n)] ↔ (p, k) ∈ inside ++ (rules ++ [(q, n)]) ∧ p = q) := by
  have hfields : (p, k) ∈ inside → q ++ ["fields"] <+: p := fun h =>
    fields p (mem_pathsOf.2 ⟨k, h⟩)
  have hquality : (p, k) ∈ rules → q ++ ["quality"] <+: p := fun h =>
    quality p (mem_pathsOf.2 ⟨k, h⟩)
  have hself : (p, k) ∈ [(q, n)] → p = q := fun h => (Prod.mk.inj (List.mem_singleton.1 h)).1
  have differ : ¬ (q ++ ["fields"] <+: p ∧ q ++ ["quality"] <+: p) := fun h =>
    absurd (segment_unique h.1 h.2) (by decide)
  simp only [List.mem_append]
  refine ⟨⟨fun h => ⟨.inl h, hfields h⟩, ?_⟩, ⟨fun h => ⟨.inr (.inl h), hquality h⟩, ?_⟩,
    ⟨fun h => ⟨.inr (.inr h), hself h⟩, ?_⟩⟩
  · rintro ⟨h | h | h, hp⟩
    · exact h
    · exact absurd ⟨hp, hquality h⟩ differ
    · exact absurd (hself h ▸ hp) not_append_isPrefix
  · rintro ⟨h | h | h, hp⟩
    · exact absurd ⟨hfields h, hp⟩ differ
    · exact h
    · exact absurd (hself h ▸ hp) not_append_isPrefix
  · rintro ⟨h | h | h, hp⟩
    · exact absurd (hp ▸ hfields h) not_append_isPrefix
    · exact absurd (hp ▸ hquality h) not_append_isPrefix
    · exact h

/-- What corresponds of two containers at one path: what is inside, the rules and the containers
themselves. -/
lemma of_container {q : Path} {n n' : Node} {inside inside' rules rules' : List (Path × Node)}
    (fields : ∀ p ∈ pathsOf inside, q ++ ["fields"] <+: p)
    (fields' : ∀ p ∈ pathsOf inside', q ++ ["fields"] <+: p)
    (quality : ∀ p ∈ pathsOf rules, q ++ ["quality"] <+: p)
    (quality' : ∀ p ∈ pathsOf rules', q ++ ["quality"] <+: p)
    (h : Corresponds R (inside ++ (rules ++ [(q, n)])) (inside' ++ (rules' ++ [(q, n')]))) :
    Corresponds R inside inside' ∧ Corresponds R rules rules' ∧ R n n' := by
  have left := mem_container_iff (n := n) fields quality
  have right := mem_container_iff (n := n') fields' quality'
  refine ⟨h.restrict _ (fun p k => (left p k).1) (fun p k => (right p k).1),
    h.restrict _ (fun p k => (left p k).2.1) (fun p k => (right p k).2.1), ?_⟩
  exact (h.restrict _ (fun p k => (left p k).2.2) (fun p k => (right p k).2.2)).rel_of_singleton

end Corresponds

namespace QualityRule

variable {R : Node → Node → Prop}

/-- A related pair goes in front of the other rules.  In the old order no nameless rule of the kind
may come before it. -/
lemma UpToOrder.insert {before after others : List QualityRule} {r s : QualityRule}
    (h : UpToOrder R (before ++ after) others) (name : r.name = s.name)
    (related : R (.quality r) (.quality s))
    (first : ∀ k, r.isNameless k = true → before.filter (isNameless k) = []) :
    UpToOrder R (before ++ r :: after) (s :: others) := by
  obtain ⟨l, hperm, hplace, hrel⟩ := h
  refine ⟨r :: l, List.perm_middle.trans (hperm.cons r), fun k => ?_, .cons ⟨name, related⟩ hrel⟩
  -- `r` comes first among the nameless rules of its kind and is in no other of these lists
  have hplace := hplace k
  rw [List.filter_append] at hplace ⊢
  cases hr : r.isNameless k with
  | true =>
      rw [first k hr, List.nil_append] at hplace ⊢
      rw [List.filter_cons_of_pos hr, List.filter_cons_of_pos hr, hplace]
  | false =>
      rw [List.filter_cons_of_neg (by simp [hr]), List.filter_cons_of_neg (by simp [hr]), hplace]

lemma filter_isNameless_remove {before after : List QualityRule} {r : QualityRule}
    {k : QualityKind} (hr : r.isNameless k = false) :
    (before ++ r :: after).filter (isNameless k) = (before ++ after).filter (isNameless k) := by
  rw [List.filter_append, List.filter_append, List.filter_cons_of_neg (by simp [hr])]

lemma NamesDistinct.remove (before : List QualityRule) {after : List QualityRule} {r : QualityRule}
    (h : NamesDistinct (before ++ r :: after)) : NamesDistinct (before ++ after) :=
  List.Nodup.sublist (((List.sublist_cons_self r after).append_left before).filterMap _) h

lemma NamesDistinct.name_ne (before : List QualityRule) {after : List QualityRule}
    {r s : QualityRule} {name : String} (h : NamesDistinct (before ++ r :: after))
    (hs : s ∈ before ++ after) (hname : s.name = some name) : r.name ≠ some name := by
  intro hr
  have hperm : (before ++ r :: after).Perm (r :: (before ++ after)) := List.perm_middle
  have h := (hperm.filterMap QualityRule.name).nodup_iff.1 h
  rw [List.filterMap_cons_some hr, List.nodup_cons] at h
  exact h.1 (List.mem_filterMap.2 ⟨s, hs, hname⟩)

lemma mem_of_mem_of_name_ne (before : List QualityRule) {after : List QualityRule}
    {r s : QualityRule} (hs : s ∈ before ++ r :: after) (hne : r.name ≠ s.name) :
    s ∈ before ++ after := by
  rw [List.mem_append, List.mem_cons] at hs
  rcases hs with hs | rfl | hs
  · exact List.mem_append_left _ hs
  · exact absurd rfl hne
  · exact List.mem_append_right _ hs

/-- Rules of two scopes in which those with the same name are related, and the nameless ones of each
kind place by place. -/
structure Matched (R : Node → Node → Prop) (rules others : List QualityRule) : Prop where
  distinct : NamesDistinct rules
  distinct' : NamesDistinct others
  named : ∀ s ∈ others, ∀ name, s.name = some name →
    ∃ r ∈ rules, r.name = some name ∧ R (.quality r) (.quality s)
  named' : ∀ r ∈ rules, ∀ name, r.name = some name → ∃ s ∈ others, s.name = some name
  places : ∀ k, List.Forall₂ (fun r s => R (.quality r) (.quality s))
    (rules.filter (isNameless k)) (others.filter (isNameless k))

namespace Matched

variable {rules others before after : List QualityRule} {r s : QualityRule}

lemma eq_nil (h : Matched R rules []) : rules = [] := by
  refine List.eq_nil_iff_forall_not_mem.2 fun r hr => ?_
  cases hname : r.name with
  | some name =>
      obtain ⟨s, hs, _⟩ := h.named' r hr name hname
      exact absurd hs List.not_mem_nil
  | none =>
      have hmem : r ∈ rules.filter (isNameless r.kind) :=
        List.mem_filter.2 ⟨hr, isNameless_eq_true_iff.2 ⟨hname, rfl⟩⟩
      obtain ⟨s, hs, _⟩ := exists_right_of_forall₂ (h.places r.kind) hmem
      exact absurd hs List.not_mem_nil

/-- What is left when a pair is taken out. -/
lemma remove (h : Matched R (before ++ r :: after) (s :: others)) (name : r.name = s.name)
    (places : ∀ k, List.Forall₂ (fun r s => R (.quality r) (.quality s))
      ((before ++ after).filter (isNameless k)) (others.filter (isNameless k))) :
    Matched R (before ++ after) others where
  distinct := h.distinct.remove before
  distinct' := h.distinct'.remove []
  named := by
    intro t ht other hother
    obtain ⟨u, hu, huname, hut⟩ := h.named t (List.mem_cons_of_mem _ ht) other hother
    have hne := h.distinct'.name_ne [] ht hother
    exact ⟨u, mem_of_mem_of_name_ne before hu (by rwa [huname, name]), huname, hut⟩
  named' := by
    intro u hu other hother
    have hmem : u ∈ before ++ r :: after := by
      rw [List.mem_append, List.mem_cons]
      exact (List.mem_append.1 hu).imp id .inr
    obtain ⟨t, ht, htname⟩ := h.named' u hmem other hother
    have hne := h.distinct.name_ne before hu hother
    exact ⟨t, mem_of_mem_of_name_ne [] ht (by rwa [htname, ← name]), htname⟩
  places := places

/-- Taking out a named pair leaves the places of the nameless ones. -/
lemma remove_named {name : String} (h : Matched R (before ++ r :: after) (s :: others))
    (hr : r.name = some name) (hs : s.name = some name) : Matched R (before ++ after) others := by
  refine h.remove (hr.trans hs.symm) fun k => ?_
  have places := h.places k
  rwa [filter_isNameless_remove (by simp [isNameless, hr]),
    List.filter_cons_of_neg (by simp [isNameless, hs])] at places

/-- Taking out the first nameless rules of a kind moves the places of the others of this kind. -/
lemma remove_nameless (h : Matched R (before ++ r :: after) (s :: others)) (hr : r.name = none)
    (hs : s.name = none) (kind : r.kind = s.kind) (first : before.filter (isNameless s.kind) = []) :
    Matched R (before ++ after) others := by
  refine h.remove (hr.trans hs.symm) fun k => ?_
  have places := h.places k
  by_cases hk : s.kind = k
  · subst hk
    rw [List.filter_append, first, List.nil_append] at places ⊢
    rw [List.filter_cons_of_pos (by simp [isNameless, hr, kind]),
      List.filter_cons_of_pos (by simp [isNameless, hs])] at places
    exact (List.forall₂_cons.1 places).2
  · rwa [filter_isNameless_remove (by simp [isNameless, hr, kind, hk]),
      List.filter_cons_of_neg (by simp [isNameless, hs, hk])] at places

/-- **Matched rules are a reordering.**  By induction on the new order: each rule is taken out of
the old one together with its partner, a nameless one from the first place of its kind. -/
theorem upToOrder : ∀ {others rules : List QualityRule}, Matched R rules others →
    UpToOrder R rules others
  | [], rules, h => ⟨[], by simp [h.eq_nil], by simp [h.eq_nil], .nil⟩
  | s :: others, rules, h => by
      cases hs : s.name with
      | some name =>
          obtain ⟨r, hr, hname, hrs⟩ := h.named s List.mem_cons_self name hs
          obtain ⟨before, after, rfl⟩ := List.append_of_mem hr
          refine (h.remove_named hname hs).upToOrder.insert (hname.trans hs.symm) hrs fun k hk => ?_
          exact absurd (isNameless_eq_true_iff.1 hk).1 (by simp [hname])
      | none =>
          have places := h.places s.kind
          rw [List.filter_cons_of_pos (by simp [isNameless, hs])] at places
          obtain ⟨r, rest, hrs, _, hfilter⟩ := List.forall₂_cons_right_iff.1 places
          obtain ⟨before, after, rfl, hbefore, hr, _⟩ := List.filter_eq_cons_iff.1 hfilter
          obtain ⟨hname, hkind⟩ := isNameless_eq_true_iff.1 hr
          have first := List.filter_eq_nil_iff.2 hbefore
          refine (h.remove_nameless hname hs hkind first).upToOrder.insert (hname.trans hs.symm) hrs
            fun k hk => ?_
          rwa [← (isNameless_eq_true_iff.1 hk).2, hkind]

end Matched

/-- The parts of a scope say which rules are matched. -/
lemma matched_of_corresponds {rules others : List QualityRule} {scope : Path}
    (distinct : NamesDistinct rules) (distinct' : NamesDistinct others)
    (h : Corresponds R (nodes scope [] rules) (nodes scope [] others)) :
    Matched R rules others := by
  have right : ∀ {p r}, At [] rules scope p r →
      ∃ s, At [] others scope p s ∧ R (.quality r) (.quality s) := by
    intro p r hr
    obtain ⟨n, hn, hR⟩ := h.right p _ (mem_nodes_iff.2 ⟨r, rfl, hr⟩)
    obtain ⟨s, rfl, hs⟩ := mem_nodes_iff.1 hn
    exact ⟨s, hs, hR⟩
  have left : ∀ {p s}, At [] others scope p s →
      ∃ r, At [] rules scope p r ∧ R (.quality r) (.quality s) := by
    intro p s hs
    obtain ⟨n, hn, hR⟩ := h.left p _ (mem_nodes_iff.2 ⟨s, rfl, hs⟩)
    obtain ⟨r, rfl, hr⟩ := mem_nodes_iff.1 hn
    exact ⟨r, hr, hR⟩
  refine ⟨distinct, distinct', ?_, ?_, fun k => forall₂_of_getElem? ?_ ?_⟩
  · intro s hs name hname
    obtain ⟨r, hr, hR⟩ := left (.named hs hname)
    obtain ⟨hr, hrname⟩ := At.named_iff.1 hr
    exact ⟨r, hr, hrname, hR⟩
  · intro r hr name hname
    obtain ⟨s, hs, _⟩ := right (.named hr hname)
    exact ⟨s, At.named_iff.1 hs⟩
  · intro i r hr
    obtain ⟨s, hs, hR⟩ := right (.nameless hr)
    exact ⟨s, At.nameless_iff.1 hs, hR⟩
  · intro i s hs
    obtain ⟨r, hr, _⟩ := left (.nameless hs)
    exact ⟨r, At.nameless_iff.1 hr⟩

end QualityRule

section Backward

variable {R : Node → Node → Prop}

lemma Field.prefix_of_mem_flatMap_nodes {q p : Path} {fields : List Field}
    (h : p ∈ pathsOf (fields.flatMap (nodes (q ++ ["fields"])))) : q ++ ["fields"] <+: p := by
  obtain ⟨n, h⟩ := mem_pathsOf.1 h
  obtain ⟨f, _, h⟩ := List.mem_flatMap.1 h
  exact List.IsPrefix.trans ⟨[f.name], rfl⟩ (f.prefix_of_mem_nodes (mem_pathsOf.2 ⟨n, h⟩))

lemma Corresponds.of_fields_of_rules {q : Path} {n n' : Node} {fields fields' : List Field}
    {rules rules' : List QualityRule}
    (h : Corresponds R
      (fields.flatMap (Field.nodes (q ++ ["fields"])) ++
        (QualityRule.nodes (q ++ ["quality"]) [] rules ++ [(q, n)]))
      (fields'.flatMap (Field.nodes (q ++ ["fields"])) ++
        (QualityRule.nodes (q ++ ["quality"]) [] rules' ++ [(q, n')]))) :
    Corresponds R (fields.flatMap (Field.nodes (q ++ ["fields"])))
        (fields'.flatMap (Field.nodes (q ++ ["fields"]))) ∧
      Corresponds R (QualityRule.nodes (q ++ ["quality"]) [] rules)
        (QualityRule.nodes (q ++ ["quality"]) [] rules') ∧ R n n' :=
  of_container (fun _ => Field.prefix_of_mem_flatMap_nodes)
    (fun _ => Field.prefix_of_mem_flatMap_nodes) (fun _ => QualityRule.scope_prefix_of_mem)
    (fun _ => QualityRule.scope_prefix_of_mem) h

lemma Field.upToOrder_of_corresponds (f : Field) : ∀ {g : Field} {scope : Path},
    f.NamesDistinct → g.NamesDistinct → f.name = g.name →
      Corresponds R (f.nodes scope) (g.nodes scope) → UpToOrder R f g := by
  induction f using Field.induction_on_children with
  | step f ih =>
      rintro g scope ⟨rules, names, children⟩ ⟨rules', names', children'⟩ name h
      have hscope : ∀ s, scope ++ [f.name, s] = scope ++ [f.name] ++ [s] := by simp
      rw [nodes_eq, nodes_eq, ← name, hscope, hscope] at h
      obtain ⟨inside, ofRules, own⟩ := h.of_fields_of_rules
      obtain ⟨fields, order, related⟩ : Rearranged (UpToOrder R) f.children g.children := by
        refine inside.rearranged names names' (fun x _ p hp => x.prefix_of_mem_nodes hp)
          (fun x _ p hp => x.prefix_of_mem_nodes hp) (fun x => ⟨_, x.self_mem_nodes _⟩) ?_
        intro x hx y hy hxy h
        exact ih x hx (children x hx) (children' y hy) hxy h
      exact .intro name own (QualityRule.matched_of_corresponds rules rules' ofRules).upToOrder
        order related

lemma Model.upToOrder_of_corresponds {m n : Model} (hm : m.NamesDistinct) (hn : n.NamesDistinct)
    (name : m.name = n.name) (h : Corresponds R m.nodes n.nodes) : UpToOrder R m n := by
  rw [nodes_eq, nodes_eq, ← name] at h
  obtain ⟨inside, ofRules, own⟩ := h.of_fields_of_rules (q := ["models", m.name])
  refine ⟨name, own, (QualityRule.matched_of_corresponds hm.rules hn.rules ofRules).upToOrder, ?_⟩
  refine inside.rearranged hm.names hn.names (fun x _ p hp => x.prefix_of_mem_nodes hp)
    (fun x _ p hp => x.prefix_of_mem_nodes hp) (fun x => ⟨_, x.self_mem_nodes _⟩) ?_
  intro f hf g hg hfg h
  exact Field.upToOrder_of_corresponds f (hm.fields f hf) (hn.fields g hg) hfg h

namespace Contract

variable {c d : Contract}

lemma nodup_sections (c : Contract) : (c.sections.map Prod.fst).Nodup := by simp [sections]

lemma corresponds_sections (h : Corresponds R c.nodes d.nodes) :
    List.Forall₂ (fun s t => Corresponds R s.2 t.2) c.sections d.sections := by
  rw [nodes_eq_sections, nodes_eq_sections] at h
  refine List.forall₂_iff_get.2 ⟨rfl, fun i hi hj => ?_⟩
  refine h.of_flatMap c.nodup_sections d.nodup_sections prefix_of_mem_sections
    prefix_of_mem_sections (List.get_mem _ _) (List.get_mem _ _) ?_
  have names : c.sections.map Prod.fst = d.sections.map Prod.fst := rfl
  have hi' : (c.sections.map Prod.fst)[i]? = (d.sections.map Prod.fst)[i]? := by rw [names]
  simpa [hi, hj] using hi'

lemma rel_terms_of_corresponds {s t : Option Terms}
    (h : Corresponds R (s.toList.map fun t => (["terms"], .terms t))
      (t.toList.map fun t => (["terms"], .terms t))) :
    Option.Rel (fun s t => R (.terms s) (.terms t)) s t := by
  cases s with
  | none =>
      cases t with
      | none => exact .none
      | some t =>
          obtain ⟨n, hn, _⟩ := h.left _ _ (List.mem_singleton_self _)
          exact absurd hn List.not_mem_nil
  | some s =>
      cases t with
      | none =>
          obtain ⟨n, hn, _⟩ := h.right _ _ (List.mem_singleton_self _)
          exact absurd hn List.not_mem_nil
      | some t => exact .some h.rel_of_singleton

/-- **Contracts with related parts at the same paths are the same up to order.** -/
theorem upToOrder_of_corresponds (hc : c.NamesDistinct) (hd : d.NamesDistinct)
    (h : Corresponds R c.nodes d.nodes) : UpToOrder R c d := by
  have hsections := corresponds_sections h
  simp only [sections, List.forall₂_cons, List.forall₂_nil_left_iff] at hsections
  obtain ⟨info, terms, servers, models, rules, -⟩ := hsections
  constructor
  · exact info.rel_of_singleton
  · exact rel_terms_of_corresponds terms
  · rw [List.map_eq_flatMap, List.map_eq_flatMap] at servers
    have below : ∀ s : Server, ∀ p ∈ pathsOf [(["servers", s.name], Node.server s)],
        ["servers"] ++ [s.name] <+: p := by simp [pathsOf]
    refine servers.rearranged hc.servers hd.servers (fun s _ => below s) (fun s _ => below s)
      (fun s => ⟨.server s, by simp⟩) ?_
    exact fun s _ t _ name h => ⟨name, h.rel_of_singleton⟩
  · have below : ∀ m : Model, ∀ p ∈ pathsOf m.nodes, ["models"] ++ [m.name] <+: p :=
      fun m p hp => m.prefix_of_mem_nodes hp
    refine models.rearranged hc.names hd.names (fun m _ => below m) (fun m _ => below m)
      (fun m => ⟨.model m, by simp [Model.mem_nodes_iff]⟩) ?_
    exact fun m hm n hn name h =>
      Model.upToOrder_of_corresponds (hc.models m hm) (hd.models n hn) name h
  · exact (QualityRule.matched_of_corresponds hc.rules hd.rules rules).upToOrder

lemma option_rel_iff {m n : Option Node} : Option.Rel R m n ↔
    (∀ x, m = some x → ∃ y, n = some y ∧ R x y) ∧ ∀ y, n = some y → ∃ x, m = some x ∧ R x y := by
  constructor
  · intro h
    cases h <;> simp_all
  · rintro ⟨right, left⟩
    cases m with
    | none =>
        cases n with
        | none => exact .none
        | some y => obtain ⟨x, hx, _⟩ := left y rfl; cases hx
    | some x =>
        obtain ⟨y, rfl, hxy⟩ := right x rfl
        exact .some hxy

lemma corresponds_iff (hc : c.NamesDistinct) (hd : d.NamesDistinct) :
    Corresponds R c.nodes d.nodes ↔ ∀ p, Option.Rel R (c.index.get? p) (d.index.get? p) := by
  simp only [option_rel_iff, get?_index_iff hc, get?_index_iff hd]
  exact ⟨fun h p => ⟨h.right p, h.left p⟩, fun h => ⟨fun p => (h p).1, fun p => (h p).2⟩⟩

/-- **A contract in which no name repeats can be rebuilt from its index.**  Two of them are the same
up to order exactly if at each path both have related parts or none. -/
theorem upToOrder_iff (kinds : ∀ {r s : QualityRule}, R (.quality r) (.quality s) → r.kind = s.kind)
    (hc : c.NamesDistinct) (hd : d.NamesDistinct) :
    UpToOrder R c d ↔ ∀ p, Option.Rel R (c.index.get? p) (d.index.get? p) := by
  rw [← corresponds_iff hc hd]
  exact ⟨fun h => h.corresponds kinds, upToOrder_of_corresponds hc hd⟩

end Contract

end Backward

end ContractDrift
