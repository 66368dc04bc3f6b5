import ContractDrift.Proofs.DistinctNames
import ContractDrift.Proofs.ReportOrder
import ContractDrift.Proofs.Subtrees

/-!
# What a change leaves alone

Take a set of paths that is closed under the containers above them.  What a changelog says about
these paths depends on nothing but the parts that stand there: a comparison goes path by path, what
covers an entry stands above it and so in the set, and the severity of a path is that of its own
entries.  The order of reports compares entries by themselves, so what is left of a changelog is in
the order in which it would be alone.

Two sets are of interest: the paths outside of one model, of the identity and of the terms, and all
paths but that of the identity.

* `Path.IsOwnerClosed` — a set of paths that is closed under the containers above them.
* `Changelog.ofGraded_filter` — a changelog read on such a set is the changelog of the entries
  there.
* `Contract.changelog_filter_eq` — two comparisons whose indexes agree on such a set.
* **`Contract.changelog_frame`** — what happens to one model, the identity and the terms has no
  effect on other entries; the version text has none on any entry but that of the identity.
-/

namespace ContractDrift

/-! ## Sets of paths -/

/-- With a path the containers above it are in the set. -/
def Path.IsOwnerClosed (P : Path → Bool) : Prop :=
  ∀ p q s, P q = true → p.isAbove q = true → p.sort? = some s → s.isContainer = true → P p = true

/-! ## Changelogs on a set of paths -/

section Filter

variable {P : Path → Bool}

/-- **A changelog read on a closed set of paths is the changelog of the entries there.** -/
theorem Changelog.ofGraded_filter {all : List GradedChange} (hP : Path.IsOwnerClosed P)
    (hall : Distinguished all)
    (hsort : ∀ g ∈ all, g.change.path.sort? = some g.change.node.sort) :
    (ofGraded all).changes.filter (P ·.change.path)
      = (ofGraded (all.filter (P ·.change.path))).changes := by
  have above : ∀ g ∈ all, P g.change.path = true → ∀ h ∈ all, h.isWholeContainer = true →
      h.change.path.isAbove g.change.path = true → P h.change.path = true := by
    intro g _ hg h hh hwhole habove
    rw [GradedChange.isWholeContainer, Bool.and_eq_true, Node.isContainer_eq] at hwhole
    exact hP _ _ _ hg habove (hsort h hh) hwhole.2
  have huncovered : Distinguished (uncovered all) := hall.filter _
  simp only [ofGraded]
  rw [filter_sorted P huncovered, filter_uncovered P above]

namespace Comparison

/-- The changes at a set of paths. -/
lemma filter_changes_between (i j : Index) : (between i j).changes.filter (P ·.path)
    = ((i.keys.union j.keys).toList.filter P).flatMap fun p =>
        changesAt p (i.get? p) (j.get? p) := by
  rw [between]
  generalize (i.keys.union j.keys).toList = paths
  induction paths with
  | nil => rfl
  | cons p rest ih =>
      have here : ∀ c ∈ changesAt p (i.get? p) (j.get? p), P c.path = P p := fun c hc => by
        rw [path_of_mem_changesAt hc]
      rw [List.flatMap_cons, List.filter_append, ih, List.filter_cons]
      cases hp : P p with
      | true =>
          rw [List.filter_eq_self.2 fun c hc => (here c hc).trans hp]
          rfl
      | false =>
          rw [List.filter_eq_nil_iff.2 fun c hc => by simp [here c hc, hp]]
          rfl

/-- Two comparisons whose indexes agree on a set of paths have the same changes there. -/
lemma filter_changes_between_eq {i j i' j' : Index} (hi : ∀ p, P p = true → i.get? p = i'.get? p)
    (hj : ∀ p, P p = true → j.get? p = j'.get? p) :
    (between i j).changes.filter (P ·.path) = (between i' j').changes.filter (P ·.path) := by
  have paths : (i.keys.union j.keys).toList.filter P = (i'.keys.union j'.keys).toList.filter P := by
    refine eq_of_pairwise_of_mem_iff ((i.keys.union j.keys).ascending.filter _)
      ((i'.keys.union j'.keys).ascending.filter _) fun p => ?_
    rw [List.mem_filter, List.mem_filter, mem_paths_iff, mem_paths_iff]
    refine and_congr_left fun hp => ?_
    rw [hi p hp, hj p hp]
  rw [filter_changes_between, filter_changes_between, paths]
  refine List.flatMap_congr fun p hp => ?_
  have hp := (List.mem_filter.1 hp).2
  rw [hi p hp, hj p hp]

end Comparison

namespace Contract

variable {old new old' new' : Contract}

/-- A change stands at a path for its sort of part. -/
lemma sort?_of_mem_changes {c : Change} (hc : c ∈ (old.compare new).changes) :
    c.path.sort? = some c.node.sort := by
  cases c with
  | added p n => exact sort?_of_get?_index (added_mem_iff.1 hc).2
  | removed p n => exact sort?_of_get?_index (removed_mem_iff.1 hc).1
  | modified p g m n => exact sort?_of_get?_index (modified_mem_iff.1 hc).1

lemma changelog_filter (hP : Path.IsOwnerClosed P) (settings : ChangelogSettings) :
    (old.changelog new settings).changes.filter (P ·.change.path)
      = (Changelog.ofGraded
          (((old.compare new).changes.filter (P ·.path)).map (Change.grade settings))).changes := by
  have hsort : ∀ g ∈ (old.compare new).changes.map (Change.grade settings),
      g.change.path.sort? = some g.change.node.sort := by
    intro g hg
    obtain ⟨c, hc, rfl⟩ := List.mem_map.1 hg
    exact sort?_of_mem_changes hc
  rw [changelog, Changelog.ofGraded_filter hP (distinguished_grade settings) hsort,
    List.filter_map]
  rfl

/-- **Where two pairs of contracts agree, their changelogs agree**, entry by entry. -/
theorem changelog_filter_eq (hP : Path.IsOwnerClosed P) (settings : ChangelogSettings)
    (hold : ∀ p, P p = true → old.index.get? p = old'.index.get? p)
    (hnew : ∀ p, P p = true → new.index.get? p = new'.index.get? p) :
    (old.changelog new settings).changes.filter (P ·.change.path)
      = (old'.changelog new' settings).changes.filter (P ·.change.path) := by
  rw [changelog_filter hP, changelog_filter hP, compare, compare,
    Comparison.filter_changes_between_eq hold hnew]

end Contract

end Filter

/-! ## Indexes that agree on a set of paths -/

/-- Reading a key sees the entries under a set of keys only, if the key is in the set. -/
lemma lookupEntry_filter {κ α : Type} [DecidableEq κ] (P : κ → Bool) {k : κ} (hk : P k = true) :
    ∀ l : List (κ × α), lookupEntry k (l.filter (P ·.1)) = lookupEntry k l
  | [] => rfl
  | (j, a) :: rest => by
      have ih := lookupEntry_filter P hk rest
      by_cases hj : j = k
      · subst hj
        rw [List.filter_cons, if_pos hk, lookupEntry, lookupEntry, if_pos rfl, if_pos rfl]
      · rw [List.filter_cons]
        split
        · rw [lookupEntry, lookupEntry, if_neg hj, if_neg hj, ih]
        · rw [lookupEntry, if_neg hj, ih]

namespace Contract

/-- Contracts with the same parts on a set of paths have the same index there, also if names
repeat. -/
lemma get?_index_eq_of_filter_nodes {c d : Contract} {P : Path → Bool}
    (h : c.nodes.filter (P ·.1) = d.nodes.filter (P ·.1)) (p : Path) (hp : P p = true) :
    c.index.get? p = d.index.get? p := by
  rw [index, index, Entries.get?_ofList, Entries.get?_ofList, ← lookupEntry_filter P hp,
    List.filter_reverse, h, ← List.filter_reverse, lookupEntry_filter P hp]

end Contract

/-! ## Everything but one model, the identity and the terms -/

/-- Whether the path is not that of the identity or of the terms, and not at or below a model with
the name. -/
def Path.isApartFrom (name : String) (p : Path) : Bool :=
  p != ["info"] && p != ["terms"] && !(["models", name].isPrefixOf p)

lemma Path.isApartFrom_iff {name : String} {p : Path} :
    p.isApartFrom name = true ↔ p ≠ ["info"] ∧ p ≠ ["terms"] ∧ ¬ ["models", name] <+: p := by
  simp only [isApartFrom, Bool.and_eq_true, bne_iff_ne, Bool.not_eq_true', ← Bool.not_eq_true,
    List.isPrefixOf_iff_prefix, and_assoc]

/-- A path to a container has two segments or more. -/
lemma Path.ne_singleton_of_isContainer {p : Path} {s : NodeSort} {word : String}
    (h : p.sort? = some s) (hs : s.isContainer = true) : p ≠ [word] := by
  rintro rfl
  obtain rfl := models_isPrefix h hs List.prefix_rfl List.prefix_rfl
  simp [sort?] at h

lemma Path.isOwnerClosed_isApartFrom (name : String) : IsOwnerClosed (isApartFrom name) := by
  intro p q s hq habove hs hcont
  obtain ⟨hpre, _⟩ := isAbove_iff.1 habove
  obtain ⟨_, _, hmodel⟩ := isApartFrom_iff.1 hq
  exact isApartFrom_iff.2 ⟨ne_singleton_of_isContainer hs hcont,
    ne_singleton_of_isContainer hs hcont, fun h => hmodel (h.trans hpre)⟩

/-- The contracts have the same servers, the same rules of their own and the same models, those with
the name left out. -/
structure Contract.AgreesApartFrom (name : String) (c d : Contract) : Prop where
  servers : c.servers = d.servers
  rules : c.quality = d.quality
  models : c.models.filter (·.name ≠ name) = d.models.filter (·.name ≠ name)

/-- All parts of a model are at or below its path. -/
lemma Model.isApartFrom_of_mem_nodes {m : Model} {name : String} {e : Path × Node}
    (he : e ∈ m.nodes) : Path.isApartFrom name e.1 = true ↔ m.name ≠ name := by
  have below : ["models", m.name] <+: e.1 := prefix_of_mem_nodes (mem_pathsOf.2 ⟨e.2, he⟩)
  have long : ∀ word : String, e.1 ≠ [word] := fun word heq => by
    have := below.length_le
    rw [heq] at this
    simp at this
  rw [Path.isApartFrom_iff]
  constructor
  · rintro ⟨_, _, hmodel⟩ rfl
    exact hmodel below
  · intro hne
    exact ⟨long _, long _, fun h => hne (@segment_unique ["models"] _ _ _ below h)⟩

namespace Contract

variable {name : String} {c d : Contract}

/-- Of the parts of models those of other models are kept. -/
lemma filter_nodes_models (name : String) (models : List Model) :
    (models.flatMap Model.nodes).filter (fun e => Path.isApartFrom name e.1)
      = (models.filter (·.name ≠ name)).flatMap Model.nodes := by
  induction models with
  | nil => rfl
  | cons m rest ih =>
      rw [List.flatMap_cons, List.filter_append, ih]
      by_cases hm : m.name = name
      · have none : m.nodes.filter (fun e => Path.isApartFrom name e.1) = [] :=
          List.filter_eq_nil_iff.2 fun e he h => (Model.isApartFrom_of_mem_nodes he).1 h hm
        rw [none, List.filter_cons_of_neg (by simpa using hm), List.nil_append]
      · have all : m.nodes.filter (fun e => Path.isApartFrom name e.1) = m.nodes :=
          List.filter_eq_self.2 fun e he => (Model.isApartFrom_of_mem_nodes he).2 hm
        rw [all, List.filter_cons_of_pos (by simpa using hm), List.flatMap_cons]

/-- What is left of the parts of a contract are servers, other models and rules. -/
lemma filter_nodes (name : String) (c : Contract) :
    c.nodes.filter (fun e => Path.isApartFrom name e.1)
      = (c.servers.map fun s => (["servers", s.name], .server s)).filter
          (fun e => Path.isApartFrom name e.1) ++
        (c.models.filter (·.name ≠ name)).flatMap Model.nodes ++
        (QualityRule.nodes ["quality"] [] c.quality).filter
          (fun e => Path.isApartFrom name e.1) := by
  have terms : (c.terms.toList.map fun t => ((["terms"] : Path), Node.terms t)).filter
      (fun e => Path.isApartFrom name e.1) = [] := by
    cases c.terms <;> rfl
  have info : Path.isApartFrom name ["info"] = false := rfl
  simp only [nodes, List.filter_append, List.filter_cons, info, terms, filter_nodes_models]
  simp

lemma AgreesApartFrom.filter_nodes_eq (h : c.AgreesApartFrom name d) :
    c.nodes.filter (fun e => Path.isApartFrom name e.1)
      = d.nodes.filter (fun e => Path.isApartFrom name e.1) := by
  rw [filter_nodes, filter_nodes, h.servers, h.rules, h.models]

end Contract

/-! ## Everything but the identity -/

/-- The contract with another version text. -/
def Contract.withVersion (version : String) (c : Contract) : Contract :=
  { c with info := { c.info with version } }

lemma Path.isOwnerClosed_ne_info : IsOwnerClosed (· != ["info"]) :=
  fun _ _ _ _ _ hs hcont => bne_iff_ne.2 (ne_singleton_of_isContainer hs hcont)

/-- The version text is a part of the identity and of nothing else. -/
lemma Contract.filter_nodes_withVersion (version : String) (c : Contract) :
    (c.withVersion version).nodes.filter (·.1 != ["info"])
      = c.nodes.filter (·.1 != ["info"]) := by
  simp [nodes, withVersion]

namespace Contract

/-- **The frame of a change.**  What happens to the models of one name, to the identity and to the
terms leaves all other entries of the changelog as they are, in the same order and with the same
rules and severities.  So the version texts have no effect on any entry but those of the
identity. -/
theorem changelog_frame (settings : ChangelogSettings) :
    (∀ {name : String} {old old' new new' : Contract}, old.AgreesApartFrom name old' →
      new.AgreesApartFrom name new' →
      (old.changelog new settings).changes.filter (·.change.path.isApartFrom name)
        = (old'.changelog new' settings).changes.filter (·.change.path.isApartFrom name)) ∧
    ∀ (old new : Contract) (version version' : String),
      ((old.withVersion version).changelog (new.withVersion version') settings).changes.filter
          (·.change.path != ["info"])
        = (old.changelog new settings).changes.filter (·.change.path != ["info"]) := by
  constructor
  · intro name old old' new new' hold hnew
    exact changelog_filter_eq (Path.isOwnerClosed_isApartFrom name) settings
      (get?_index_eq_of_filter_nodes hold.filter_nodes_eq)
      (get?_index_eq_of_filter_nodes hnew.filter_nodes_eq)
  · intro old new version version'
    exact changelog_filter_eq Path.isOwnerClosed_ne_info settings
      (get?_index_eq_of_filter_nodes (filter_nodes_withVersion version old))
      (get?_index_eq_of_filter_nodes (filter_nodes_withVersion version' new))

/-- The dataset `events` gets a wider column; beside it `orders` changes a type in one pair of
contracts, and is dropped together with the terms and three versions later in the other one. -/
theorem changelog_frame_of_dropped_dataset :
    let events (type : DataType) : Model := { name := "events", fields := [.plain "at" type] }
    let orders (type : DataType) : Model := { name := "orders", fields := [.plain "id" type] }
    let contract (models : List Model) : Contract :=
      { named "shop" "Shop" "1.0.0" with models }
    let old := contract [orders .string, events .int]
    let new := contract [orders .bytes, events .long]
    let old' := { old with terms := some {} }
    let new' := (contract [events .long]).withVersion "4.0.0"
    old.AgreesApartFrom "orders" old' ∧ new.AgreesApartFrom "orders" new' ∧
      (old.changelog new {}).changes.filter (·.change.path.isApartFrom "orders")
        = (old'.changelog new' {}).changes.filter (·.change.path.isApartFrom "orders") := by
  intro events orders contract old new old' new'
  have hold : old.AgreesApartFrom "orders" old' := ⟨rfl, rfl, rfl⟩
  have hnew : new.AgreesApartFrom "orders" new' := by
    refine ⟨rfl, rfl, ?_⟩
    simp [new, new', contract, orders, events, withVersion]
  exact ⟨hold, hnew, (changelog_frame {}).1 hold hnew⟩

end Contract

end ContractDrift
