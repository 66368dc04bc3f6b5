import ContractDrift.Proofs.Accounting
import ContractDrift.Proofs.DistinctNames
import ContractDrift.Report.Text

/-!
# What settings decide

Settings give rules another severity and say from which severity on the gate closes.  They come
last.  Of the rules that fit a change, the one that decides is chosen by the severities of the
table, and what a container covers is seen from the changes alone, so under all settings a changelog
has the same entries but for their severities, and perhaps in another order.

* `ChangelogSettings.severityOf` — how severe a rule is under the settings.
* `ChangelogSettings.IsAsStrictAs` — no rule is less severe, and the gate closes no later.
* `ChangelogSettings.IsAsStrictAs.severity_grade_le` — the grades of one change under both.
* **`Contract.changelog_regraded`** — settings choose no entry, and a gate that stricter settings
  leave open is open.
-/

namespace ContractDrift

namespace ChangelogSettings

/-- The severity of a rule: the one that the settings give it, and otherwise its own. -/
def severityOf (s : ChangelogSettings) (r : Rule) : Severity :=
  (s.override? r.id).getD r.severity

/-- The settings `t` are at least as strict as `s`: each rule is as severe or more, and the gate
closes at the same severity or a lesser one. -/
structure IsAsStrictAs (t s : ChangelogSettings) : Prop where
  severity : ∀ r ∈ Rule.table, s.severityOf r ≤ t.severityOf r
  failOn : t.failOn ≤ s.failOn

end ChangelogSettings

variable {s t : ChangelogSettings} {c : Change}

namespace Change

/-- The rule of a change is chosen without a look at the settings. -/
lemma rule_grade_eq (s t : ChangelogSettings) (c : Change) :
    (c.grade s).rule = (c.grade t).rule := rfl

lemma severity_grade (s : ChangelogSettings) (c : Change) :
    (c.grade s).severity = s.severityOf (c.grade s).rule := rfl

end Change

/-- A change is as severe or more under settings that are as strict or more. -/
lemma ChangelogSettings.IsAsStrictAs.severity_grade_le (h : t.IsAsStrictAs s) {old new : Contract}
    (hc : c ∈ (old.compare new).changes) : (c.grade s).severity ≤ (c.grade t).severity := by
  obtain ⟨r, hr⟩ := Contract.exists_forChange? hc
  have rule : (c.grade s).rule = r := by
    simp only [Change.grade, hr, Option.getD_some]
  rw [Change.severity_grade, Change.severity_grade, Change.rule_grade_eq t s, rule]
  exact h.severity r (Rule.mem_table_of_forChange? hr).1

namespace Contract

/-- The entries without their severities are the uncovered changes with their rules, whatever the
settings are. -/
lemma map_change_rule_changelog_perm (old new : Contract) (s : ChangelogSettings) :
    ((old.changelog new s).changes.map fun g => (g.change, g.rule)).Perm
      (((old.compare new).changes.filter fun c => ¬ c.IsCovered (old.compare new).changes).map
        fun c => (c, (Rule.forChange? c).getD .unclassified)) := by
  refine (changes_changelog_perm.map _).trans (.of_eq ?_)
  rw [List.map_map]
  exact List.map_congr_left fun c _ => rfl

lemma passes_of_isAsStrictAs {old new : Contract} (h : t.IsAsStrictAs s)
    (hpass : (old.changelog new t).passes t.failOn = true) :
    (old.changelog new s).passes s.failOn = true := by
  rw [passes_iff] at *
  intro c hc hcov hs
  have reaches : t.failOn ≤ (c.grade s).severity := Severity.le_trans h.failOn hs
  exact hpass c hc hcov (Severity.le_trans reaches (h.severity_grade_le hc))

/-- **Settings only grade.**  Under any two settings the changelogs of two contracts have the same
entries, each as often: the same changes, with their paths, kinds and groups of attributes, and the
same rules.  If one of the settings makes no rule less severe and closes the gate no later, then a
gate that is open under it is open under the other one. -/
theorem changelog_regraded (old new : Contract) (s t : ChangelogSettings) :
    ((old.changelog new s).changes.map fun g => (g.change, g.rule)).Perm
      ((old.changelog new t).changes.map fun g => (g.change, g.rule)) ∧
    (t.IsAsStrictAs s → (Gate.ofChangelog t (old.changelog new t)).passed = true →
      (Gate.ofChangelog s (old.changelog new s)).passed = true) := by
  constructor
  · exact (map_change_rule_changelog_perm old new s).trans
      (map_change_rule_changelog_perm old new t).symm
  · intro h hpass
    exact passes_of_isAsStrictAs h hpass

/-- A wider type, under settings that take it for a remark and under the default ones. -/
theorem changelog_regraded_of_wider_type :
    let old := single [.plain "id" .int]
    let new := single [.plain "id" .long]
    let s := ({} : ChangelogSettings).withOverride "field-type-widened" .info
    let t : ChangelogSettings := {}
    t.IsAsStrictAs s ∧ (Gate.ofChangelog t (old.changelog new t)).passed = true ∧
      (Gate.ofChangelog s (old.changelog new s)).passed = true := by
  intro old new s t
  have strict : t.IsAsStrictAs s := ⟨by decide, by decide⟩
  have passed : (Gate.ofChangelog t (old.changelog new t)).passed = true := by decide +kernel
  exact ⟨strict, passed, (changelog_regraded old new s t).2 strict passed⟩

end Contract

end ContractDrift
