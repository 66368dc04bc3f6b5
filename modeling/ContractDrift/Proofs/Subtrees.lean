import ContractDrift.Proofs.Accounting
import ContractDrift.Proofs.DistinctNames

/-!
# One entry for a whole subtree

A field, and a rule of a model or a field, is indexed only together with the containers above it.
So below a container that came or went there is nothing that stayed: all that is found there came
or went in the same way, and the changelog covers it.  This holds with repeated names as well.

* `Contract.containerAt_of_nodeAt` — with a part all containers above it are there;
  **`Contract.get?_index_eq_none_of_isPrefix`** — so an index is closed under owners.
* `Contract.kind_eq_of_isPrefix` — below a container that came or went all changes are of its kind.
* `Contract.pairwise_changes` — a comparison has at most one change of a path, unless the part
  there stayed.
* `Change.exists_uncovered_above` — above a covered change stands a container that is not covered.
* **`Contract.changelog_subtrees`** — a changelog has nothing below an entry for a whole container,
  and exactly one such entry above each change that it leaves out.
-/

namespace ContractDrift

/-! ## Owners -/

/-- Below a container the word `quality` leads to rules and to nothing else. -/
lemma Path.sort?_append_quality {s t : NodeSort} {p rest : Path} (h : p.sort? = some s)
    (hs : s.isContainer = true) (hq : Path.sort? (p ++ "quality" :: rest) = some t) :
    t = .quality := by
  rw [sort?_append _ h hs] at hq
  cases rest with
  | nil => simp [sortBelow?] at hq
  | cons name rest => exact (Option.some.inj hq).symm

/-- The path of a container begins with the word `models`. -/
lemma Path.models_isPrefix {s : NodeSort} {p q : Path} {word : String} (h : p.sort? = some s)
    (hs : s.isContainer = true) (hp : p <+: q) (hq : [word] <+: q) : word = "models" := by
  unfold sort? at h
  split at h
  case h_4 name below =>
    obtain ⟨t, rfl⟩ := hp
    exact (List.cons_prefix_cons.1 hq).1
  case h_6 => cases h
  all_goals
    obtain rfl := Option.some.inj h
    cases hs

namespace Contract

variable {c : Contract} {p q : Path}

lemma ModelAt.containerAt {m : Model} (h : c.ModelAt p m) : c.ContainerAt p := .inl ⟨m, h⟩

lemma FieldAt.containerAt {f : Field} (h : c.FieldAt p f) : c.ContainerAt p := .inr ⟨f, h⟩

/-- A container above the rules of an owner is the owner or stands above it. -/
lemma containerAt_of_rule {o : Path} {s : NodeSort} (ho : c.ContainerAt o)
    (hq : o ++ ["quality"] <+: q) (hp : p <+: q) (hs : p.sort? = some s)
    (hcont : s.isContainer = true) : c.ContainerAt p := by
  obtain ⟨t, ht, htc⟩ := ho.sort?
  rcases List.prefix_or_prefix_of_prefix hp hq with h | ⟨rest, rfl⟩
  · rcases List.prefix_concat_iff.1 h with rfl | h
    · obtain rfl := Path.sort?_append_quality ht htc hs
      cases hcont
    · exact containerAt_of_isPrefix ho h hs
  · rw [List.append_assoc] at hs
    obtain rfl := Path.sort?_append_quality ht htc hs
    cases hcont

/-- **With a part all containers above it are there.** -/
theorem containerAt_of_nodeAt {n : Node} {s : NodeSort} (hn : c.NodeAt q n) (hp : p <+: q)
    (hs : p.sort? = some s) (hcont : s.isContainer = true) : c.ContainerAt p := by
  cases n with
  | model m => exact containerAt_of_isPrefix (ModelAt.containerAt hn) hp hs
  | field f => exact containerAt_of_isPrefix (FieldAt.containerAt hn) hp hs
  | quality r =>
      cases hn with
      | contract hr =>
          exact absurd (Path.models_isPrefix hs hcont hp hr.scope_isPrefix) (by decide)
      | model owner hr => exact containerAt_of_rule owner.containerAt hr.scope_isPrefix hp hs hcont
      | field owner hr => exact containerAt_of_rule owner.containerAt hr.scope_isPrefix hp hs hcont
  | info i => exact absurd (Path.models_isPrefix hs hcont hp ⟨[], hn.2.symm⟩) (by decide)
  | terms t => exact absurd (Path.models_isPrefix hs hcont hp ⟨[], hn.2.symm⟩) (by decide)
  | server s' => exact absurd (Path.models_isPrefix hs hcont hp ⟨[s'.name], hn.2.symm⟩) (by decide)

/-- A path has a part in the index exactly if some part stands there. -/
lemma isSome_get?_index_iff : (c.index.get? p).isSome ↔ ∃ n, c.NodeAt p n := by
  rw [← Entries.mem_keys_iff, index, Entries.mem_keys_ofList, List.mem_map]
  constructor
  · rintro ⟨⟨p, n⟩, hmem, rfl⟩
    exact ⟨n, mem_nodes_iff_nodeAt.1 hmem⟩
  · rintro ⟨n, hn⟩
    exact ⟨(p, n), mem_nodes_iff_nodeAt.2 hn, rfl⟩

/-- **An index is closed under owners**: below a container that it does not hold it holds
nothing. -/
theorem get?_index_eq_none_of_isPrefix {s : NodeSort} (hp : p <+: q) (hs : p.sort? = some s)
    (hcont : s.isContainer = true) (hnone : c.index.get? p = none) : c.index.get? q = none := by
  by_contra h
  obtain ⟨n, hn⟩ := isSome_get?_index_iff.1 (Option.isSome_iff_ne_none.2 h)
  have hsome : (c.index.get? p).isSome := by
    rcases containerAt_of_nodeAt hn hp hs hcont with ⟨m, hm⟩ | ⟨f, hf⟩
    · exact isSome_get?_index_iff.2 ⟨.model m, hm⟩
    · exact isSome_get?_index_iff.2 ⟨.field f, hf⟩
  rw [hnone] at hsome
  cases hsome

end Contract

/-! ## Changes below a container -/

/-- The change says that a container came or went as a whole. -/
def Change.IsWholeContainer (c : Change) : Prop := c.kind ≠ .modified ∧ c.node.isContainer = true

/-- Above a covered change stands a container that no other one covers. -/
lemma Change.exists_uncovered_above {all : List Change} {c : Change} (hc : c.IsCovered all) :
    ∃ h ∈ all, h.IsWholeContainer ∧ h.kind = c.kind ∧ h.path.isAbove c.path = true ∧
      ¬ h.IsCovered all := by
  obtain ⟨k, hk, hne, hcont, hkind, hpre, hpath⟩ := hc
  obtain ⟨p, hp, ⟨h, hmem, hwhole, hhk, rfl⟩, first⟩ := Path.exists_first_above
    (P := fun p => ∃ h ∈ all, h.IsWholeContainer ∧ h.kind = c.kind ∧ h.path = p)
    k.path ⟨k, hk, ⟨hne, hcont⟩, hkind, rfl⟩
  refine ⟨h, hmem, hwhole, hhk, Path.isAbove_iff.2 ⟨hp.trans hpre, ?_⟩, ?_⟩
  · intro heq
    exact hpath (hpre.eq_of_length (le_antisymm hpre.length_le (heq ▸ hp.length_le)))
  · rintro ⟨j, hj, hjne, hjcont, hjk, hjpre, hjpath⟩
    exact first j.path hjpre hjpath ⟨j, hj, ⟨hjne, hjcont⟩, hjk.trans hhk, rfl⟩

/-- Two changes that stand at one path only as differences of a part that stayed. -/
def Change.ShareOnlyModified (c d : Change) : Prop :=
  c.path = d.path → c.kind = .modified ∧ d.kind = .modified

namespace Contract

variable {a b : Contract} {c h : Change}

/-- **Below a container that came or went, and at its path, all changes are of its kind.** -/
theorem kind_eq_of_isPrefix (hh : h ∈ (a.compare b).changes) (hwhole : h.IsWholeContainer)
    (hc : c ∈ (a.compare b).changes) (hp : h.path <+: c.path) : c.kind = h.kind := by
  obtain ⟨hkind, hcont⟩ := hwhole
  rw [Node.isContainer_eq] at hcont
  cases h with
  | modified p g m n => exact absurd rfl hkind
  | added p n =>
      obtain ⟨ha, hb⟩ := added_mem_iff.1 hh
      have none := get?_index_eq_none_of_isPrefix hp (sort?_of_get?_index hb) hcont ha
      cases c with
      | added q k => rfl
      | removed q k => cases none.symm.trans (removed_mem_iff.1 hc).1
      | modified q g k l => cases none.symm.trans (modified_mem_iff.1 hc).1
  | removed p n =>
      obtain ⟨ha, hb⟩ := removed_mem_iff.1 hh
      have none := get?_index_eq_none_of_isPrefix hp (sort?_of_get?_index ha) hcont hb
      cases c with
      | added q k => cases none.symm.trans (added_mem_iff.1 hc).2
      | removed q k => rfl
      | modified q g k l => cases none.symm.trans (modified_mem_iff.1 hc).2.1

/-- **A part that came or went has one change.** -/
theorem pairwise_changes (a b : Contract) :
    (a.compare b).changes.Pairwise Change.ShareOnlyModified := by
  rw [compare, Comparison.between, List.pairwise_flatMap]
  constructor
  · intro p _
    cases a.index.get? p <;> cases b.index.get? p
    · exact .nil
    · exact List.pairwise_singleton _ _
    · exact List.pairwise_singleton _ _
    · exact List.pairwise_map.2 (List.pairwise_of_forall fun _ _ _ => ⟨rfl, rfl⟩)
  · refine (a.index.keys.union b.index.keys).ascending.imp fun hlt c hc d hd hcd => ?_
    rw [Comparison.path_of_mem_changesAt hc, Comparison.path_of_mem_changesAt hd] at hcd
    exact absurd (hcd ▸ hlt) Std.lt_irrefl

end Contract

/-! ## Entries -/

/-- The entry stands for the changes of a kind at the path: it says that a container above the path
came or went in this way. -/
def GradedChange.standsFor (kind : ChangeKind) (p : Path) (g : GradedChange) : Bool :=
  g.isWholeContainer && g.change.kind == kind && g.change.path.isAbove p

lemma GradedChange.isAbove_of_standsFor {g : GradedChange} {kind : ChangeKind} {p : Path}
    (h : g.standsFor kind p = true) : g.change.IsWholeContainer ∧ g.change.kind = kind ∧
      g.change.path <+: p ∧ g.change.path ≠ p := by
  simp only [standsFor, isWholeContainer, Bool.and_eq_true, bne_iff_ne, beq_iff_eq,
    Path.isAbove_iff] at h
  obtain ⟨⟨⟨hkind, hcont⟩, rfl⟩, habove⟩ := h
  exact ⟨⟨hkind, hcont⟩, rfl, habove⟩

/-- Of elements that exclude one another at most one is in a list. -/
lemma countP_le_one_of_pairwise {α : Type} {P : α → Bool} {l : List α}
    (h : l.Pairwise fun x y => P x = true → P y = false) : l.countP P ≤ 1 := by
  induction l with
  | nil => exact Nat.zero_le 1
  | cons x rest ih =>
      rw [List.pairwise_cons] at h
      by_cases hx : P x = true
      · have hrest : rest.countP P = 0 := by
          rw [List.countP_eq_zero]
          intro y hy
          simp [h.1 y hy hx]
        rw [List.countP_cons_of_pos hx]
        omega
      · rw [List.countP_cons_of_neg hx]
        exact ih h.2

namespace Contract

variable {old new : Contract} {c : Change} {settings : ChangelogSettings}

lemma pairwise_changelog (old new : Contract) (settings : ChangelogSettings) :
    ((old.changelog new settings).changes.map GradedChange.change).Pairwise
      Change.ShareOnlyModified := by
  have symm : ∀ {c d : Change}, c.ShareOnlyModified d → d.ShareOnlyModified c :=
    fun h hp => (h hp.symm).symm
  rw [(map_change_changelog_perm old new settings).pairwise_iff symm]
  exact (pairwise_changes old new).filter _

lemma mem_compare_of_mem_changelog {g : GradedChange}
    (hg : g ∈ (old.changelog new settings).changes) : g.change ∈ (old.compare new).changes := by
  obtain ⟨c, hc, _, rfl⟩ := mem_changelog_iff.1 hg
  exact hc

/-- A changelog has nothing below an entry for a whole container. -/
lemma not_isAbove_of_isWholeContainer {g k : GradedChange}
    (hg : g ∈ (old.changelog new settings).changes) (hwhole : g.change.IsWholeContainer)
    (hk : k ∈ (old.changelog new settings).changes) :
    g.change.path.isAbove k.change.path = false := by
  rw [← Bool.not_eq_true]
  intro habove
  obtain ⟨hpre, hne⟩ := Path.isAbove_iff.1 habove
  have hkind := kind_eq_of_isPrefix (mem_compare_of_mem_changelog hg) hwhole
    (mem_compare_of_mem_changelog hk) hpre
  obtain ⟨c, _, hcov, rfl⟩ := mem_changelog_iff.1 hk
  exact hcov ⟨g.change, mem_compare_of_mem_changelog hg, hwhole.1, hwhole.2, hkind.symm, hpre, hne⟩

/-- Of the entries for whole containers above a path there is one at most: of two, one would stand
above the other, or both at one path. -/
lemma countP_standsFor_le_one (old new : Contract) (settings : ChangelogSettings)
    (kind : ChangeKind) (p : Path) :
    (old.changelog new settings).changes.countP (·.standsFor kind p) ≤ 1 := by
  refine countP_le_one_of_pairwise ?_
  refine (List.pairwise_map.1 (pairwise_changelog old new settings)).imp_of_mem ?_
  intro g k hg hk shared hgp
  rw [← Bool.not_eq_true]
  intro hkp
  obtain ⟨hgwhole, _, hgpre, _⟩ := GradedChange.isAbove_of_standsFor hgp
  obtain ⟨hkwhole, _, hkpre, _⟩ := GradedChange.isAbove_of_standsFor hkp
  have hne : g.change.path ≠ k.change.path := fun heq => hgwhole.1 (shared heq).1
  rcases List.prefix_or_prefix_of_prefix hgpre hkpre with h | h
  · have := not_isAbove_of_isWholeContainer hg hgwhole hk
    rw [Path.isAbove_iff.2 ⟨h, hne⟩] at this
    cases this
  · have := not_isAbove_of_isWholeContainer hk hkwhole hg
    rw [Path.isAbove_iff.2 ⟨h, hne.symm⟩] at this
    cases this

/-- A change that the changelog leaves out has an entry that stands for it. -/
lemma exists_standsFor (hc : c ∈ (old.compare new).changes)
    (hmissing : c ∉ (old.changelog new settings).changes.map GradedChange.change) :
    ∃ g ∈ (old.changelog new settings).changes, g.standsFor c.kind c.path = true := by
  have hcov : c.IsCovered (old.compare new).changes := by
    by_contra hcov
    exact hmissing (List.mem_map.2 ⟨_, mem_changelog_iff.2 ⟨c, hc, hcov, rfl⟩, rfl⟩)
  obtain ⟨h, hh, ⟨hkind, hcont⟩, hhk, habove, huncov⟩ := Change.exists_uncovered_above hcov
  refine ⟨h.grade settings, mem_changelog_iff.2 ⟨h, hh, huncov, rfl⟩, ?_⟩
  simp only [GradedChange.standsFor, GradedChange.isWholeContainer, Change.grade, hcont, hhk,
    habove, Bool.and_true, beq_self_eq_true, bne_iff_ne]
  exact hhk ▸ hkind

/-- **One entry stands for a whole subtree.**  Below an entry for a container that came or went the
changelog has nothing, and each change that it leaves out has exactly one such entry of its kind
above it. -/
theorem changelog_subtrees (old new : Contract) (settings : ChangelogSettings) :
    (∀ g ∈ (old.changelog new settings).changes, g.isWholeContainer = true →
      ∀ k ∈ (old.changelog new settings).changes, g.change.path.isAbove k.change.path = false) ∧
    ∀ c ∈ (old.compare new).changes,
      c ∉ (old.changelog new settings).changes.map GradedChange.change →
        (old.changelog new settings).changes.countP (·.standsFor c.kind c.path) = 1 := by
  constructor
  · intro g hg hwhole k hk
    simp only [GradedChange.isWholeContainer, Bool.and_eq_true, bne_iff_ne] at hwhole
    exact not_isAbove_of_isWholeContainer hg hwhole hk
  · intro c hc hmissing
    have hpos : 0 < (old.changelog new settings).changes.countP (·.standsFor c.kind c.path) :=
      List.countP_pos_iff.2 (exists_standsFor hc hmissing)
    have hle := countP_standsFor_le_one old new settings c.kind c.path
    omega

/-- A field goes together with the one inside of it, and its entry stands for both. -/
theorem changelog_subtrees_of_removed_field :
    ((single [.nested { name := "buyer" } .object [.plain "email" .string]]).changelog (single [])
      {}).changes.countP (·.standsFor .removed
        ["models", "orders", "fields", "buyer", "fields", "email"]) = 1 := by
  have outer : Change.removed ["models", "orders", "fields", "buyer"]
      (.field (.nested { name := "buyer" } .object [.plain "email" .string])) ∈
        ((single [.nested { name := "buyer" } .object [.plain "email" .string]]).compare
          (single [])).changes := removed_mem_iff.2 ⟨rfl, rfl⟩
  have inner : Change.removed ["models", "orders", "fields", "buyer", "fields", "email"]
      (.field (.plain "email" .string)) ∈
        ((single [.nested { name := "buyer" } .object [.plain "email" .string]]).compare
          (single [])).changes := removed_mem_iff.2 ⟨rfl, rfl⟩
  refine (changelog_subtrees _ _ {}).2 _ inner fun hmem => ?_
  obtain ⟨g, hg, hchange⟩ := List.mem_map.1 hmem
  obtain ⟨c, _, hcov, rfl⟩ := mem_changelog_iff.1 hg
  obtain rfl : c = _ := hchange
  exact hcov ⟨_, outer, by decide, rfl, rfl, by decide, by decide⟩

end Contract

end ContractDrift
