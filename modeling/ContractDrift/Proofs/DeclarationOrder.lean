import ContractDrift.Proofs.Bare
import ContractDrift.Proofs.Changes
import ContractDrift.Proofs.Reordering

/-!
# The order of declarations does not matter

Reordering a contract moves its parts within the lists that hold them, and so changes every model
and field that holds such a list.  What a changelog tells does not depend on it, for two reasons.
The paths stay, a nameless rule keeping its place among those of its kind, and at each path the
part stays up to what stands below it (`Contract.upToOrder_iff`).  And no step from two indexes to
a changelog looks below a part (`Changelog.ofGraded_bare`).

* `Contract.Reordered` — the same contract in another order.
* `Contract.compare_bare_of_reordered` — the bare changes stay.
* `ChangelogRow`, **`Contract.changelog_rows_of_reordered`** — the rows of the changelog stay.
-/

namespace ContractDrift

/-- The contract `d` is `c` with its servers, models, fields and rules in another order, at every
depth, in which the nameless rules of each kind and scope stay in order. -/
def Contract.Reordered (c d : Contract) : Prop := UpToOrder (fun m n => m.bare = n.bare) c d

namespace Contract

variable {c d : Contract}

lemma reordered_single {fields others : List Field} (h : fields.Perm others) :
    (single fields).Reordered (single others) where
  identity := rfl
  terms := .none
  servers := ⟨[], .nil, .nil⟩
  models := by
    refine ⟨_, .refl _, .cons ⟨rfl, rfl, ?_, ?_⟩ .nil⟩
    · exact QualityRule.upToOrder_refl (fun _ => rfl) _
    · exact Field.rearranged_of_perm (R := fun m n => m.bare = n.bare) (fun _ => rfl) h
  rules := QualityRule.upToOrder_refl (fun _ => rfl) _

/-- The index of a reordered contract has the same bare parts. -/
lemma Reordered.get?_index_bare (h : c.Reordered d) (hc : c.NamesDistinct) (hd : d.NamesDistinct)
    (p : Path) : (c.index.get? p).map Node.bare = (d.index.get? p).map Node.bare := by
  have kinds : ∀ {r s : QualityRule}, (Node.quality r).bare = (Node.quality s).bare →
      r.kind = s.kind := fun hrs => by rw [Node.quality.inj hrs]
  have hp := (upToOrder_iff (R := fun m n => m.bare = n.bare) kinds hc hd).1 h p
  generalize c.index.get? p = m at hp ⊢
  generalize d.index.get? p = n at hp ⊢
  cases hp with
  | none => rfl
  | some hmn => rw [Option.map_some, Option.map_some, hmn]

variable {old old' new new' : Contract}

/-- **Reordered contracts have the same bare changes**, in the same order. -/
theorem compare_bare_of_reordered (ho : old.NamesDistinct) (ho' : old'.NamesDistinct)
    (hn : new.NamesDistinct) (hn' : new'.NamesDistinct) (hold : old.Reordered old')
    (hnew : new.Reordered new') :
    (old.compare new).changes.map Change.bare = (old'.compare new').changes.map Change.bare := by
  have left := hold.get?_index_bare ho ho'
  have right := hnew.get?_index_bare hn hn'
  have paths : old.index.keys.union new.index.keys = old'.index.keys.union new'.index.keys := by
    refine Members.ext_mem fun p => ?_
    have hp := congrArg Option.isSome (left p)
    have hq := congrArg Option.isSome (right p)
    simp only [Option.isSome_map] at hp hq
    simp only [Members.mem_union, Entries.mem_keys_iff, hp, hq]
  simp only [compare, Comparison.between, paths, List.map_flatMap]
  refine List.flatMap_congr fun p _ => ?_
  rw [← Comparison.changesAt_bare, ← Comparison.changesAt_bare, left, right]

end Contract

/-- What a changelog tells of a change, its values and texts apart. -/
structure ChangelogRow where
  path : Path
  entity : EntityKind
  kind : ChangeKind
  group? : Option Attribute
  severity : Severity
  rule : String
  deriving DecidableEq

/-- The row of a graded change. -/
def GradedChange.row (g : GradedChange) : ChangelogRow where
  path := g.change.path
  entity := g.change.entity
  kind := g.change.kind
  group? := g.change.group?
  severity := g.severity
  rule := g.rule.id

lemma GradedChange.row_bare (g : GradedChange) : g.bare.row = g.row := by
  simp [row, bare]

namespace Contract

/-- The rows of a changelog are read off the bare changes. -/
lemma changelog_rows (old new : Contract) (settings : ChangelogSettings) :
    (old.changelog new settings).changes.map GradedChange.row
      = (Changelog.ofGraded
          (((old.compare new).changes.map Change.bare).map (Change.grade settings))).changes.map
            GradedChange.row := by
  have grades : ((old.compare new).changes.map Change.bare).map (Change.grade settings)
      = ((old.compare new).changes.map (Change.grade settings)).map GradedChange.bare := by
    rw [List.map_map, List.map_map]
    exact List.map_congr_left fun c _ => Change.grade_bare settings c
  rw [grades, Changelog.ofGraded_bare, List.map_map]
  exact List.map_congr_left fun g _ => g.row_bare.symm

/-- **Declaration-order independence.**  Reordering both versions leaves every row of the changelog
at its place, whatever the settings. -/
theorem changelog_rows_of_reordered {old old' new new' : Contract} (ho : old.NamesDistinct)
    (ho' : old'.NamesDistinct) (hn : new.NamesDistinct) (hn' : new'.NamesDistinct)
    (hold : old.Reordered old') (hnew : new.Reordered new') (settings : ChangelogSettings) :
    (old.changelog new settings).changes.map GradedChange.row
      = (old'.changelog new' settings).changes.map GradedChange.row := by
  rw [changelog_rows, changelog_rows, compare_bare_of_reordered ho ho' hn hn' hold hnew]

/-- A field goes and another one comes, with the remaining one declared first or last. -/
theorem changelog_rows_of_two_fields :
    ((single [.plain "id" .int, .plain "note" .string]).changelog
        (single [.plain "id" .int, .plain "size" .long]) {}).changes.map GradedChange.row
      = ((single [.plain "note" .string, .plain "id" .int]).changelog
        (single [.plain "size" .long, .plain "id" .int]) {}).changes.map GradedChange.row := by
  have distinct : ∀ {x y : String} {t u : DataType}, x ≠ y →
      (single [.plain x t, .plain y u]).NamesDistinct := fun hxy =>
    namesDistinct_single (by simpa [Field.plain, Field.name] using hxy)
      (by simp [Field.namesDistinct_plain])
  refine changelog_rows_of_reordered (distinct (by decide)) (distinct (by decide))
    (distinct (by decide)) (distinct (by decide)) ?_ ?_ {}
  · exact reordered_single (.swap _ _ _)
  · exact reordered_single (.swap _ _ _)

end Contract

end ContractDrift
