import ContractDrift.Proofs.Tightening

/-!
# What happened to the key of a model

A model declares its key columns, or it does not.  An empty list of columns is no key either, but it
is a declaration of its own: models are compared by what they declare, and the rules are chosen by
which of the two has a key.

* `Model.key?` — the key of a model, which has one column or more.
* `Model.keyRule`, `Change.rule_primaryKey` — the rule for each pair of keys, and its severity.
* **`Contract.primaryKey_changes`** — when the key of a model is listed as changed, and the rule.
* **`Contract.key_removed_of_empty_declaration`** — between two models without a key a key can be
  called removed.
-/

namespace ContractDrift

/-- The key of a model; without columns there is none. -/
def Model.key? (m : Model) : Option (List String) := m.primaryKey.filter fun k => !k.isEmpty

namespace Model

lemma hasNoKey_eq (m : Model) : m.hasNoKey = m.key?.isNone := by
  rw [key?, hasNoKey]
  cases m.primaryKey with
  | none => rfl
  | some k => cases k <;> rfl

/-- A key is what is declared. -/
lemma primaryKey_of_key? {m : Model} {k : List String} (h : m.key? = some k) :
    m.primaryKey = some k :=
  (Option.filter_eq_some_iff.1 h).1

/-- The group of the key differs if the declarations do. -/
lemma primaryKey_mem_differences_iff {m n : Model} :
    .primaryKey ∈ (Node.model m).differences (.model n) ↔ m.primaryKey ≠ n.primaryKey := by
  simp [Node.differences, differences, Attribute.mem_when]

/-- The rule for the change from one key to another, and its severity. -/
def keyRule (old new : Model) : String × Severity :=
  match old.key?, new.key? with
  | _, none => ("model-primary-key-removed", .breaking)
  | none, some _ => ("model-primary-key-added", .warning)
  | some _, some _ => ("model-primary-key-changed", .breaking)

end Model

/-- Of the rows about keys the one that there is none now outweighs the one that there was none. -/
lemma Rule.decisive?_primaryKey (holds : Condition → Bool) {m n : Model}
    (had : holds .modelHadNoKey = m.hasNoKey) (has : holds .modelHasNoKey = n.hasNoKey) :
    (decisive? ((candidates .model .modified (some .primaryKey)).filter fun r =>
      r.condition.all holds)).map (fun r => (r.id, r.severity)) = some (m.keyRule n) := by
  have rows : candidates .model .modified (some .primaryKey) = (models.drop 3).take 3 := rfl
  rw [Model.hasNoKey_eq] at had has
  rw [rows, Model.keyRule]
  cases hm : m.key? <;> cases hn : n.key? <;> rw [hm] at had <;> rw [hn] at has <;>
    simp [models, had, has, decisive?, yieldsTo, specificity, Severity.le_iff_rank_le,
      Severity.rank]

/-- **The two keys decide about the rule.** -/
theorem Change.rule_primaryKey (p : Path) (m n : Model) (settings : ChangelogSettings) :
    let rule := ((modified p .primaryKey (.model m) (.model n)).grade settings).rule
    (rule.id, rule.severity) = m.keyRule n := by
  have conditions := Rule.decisive?_primaryKey (m := m) (n := n)
    (Condition.holds (modified p .primaryKey (.model m) (.model n))) rfl rfl
  obtain ⟨r, hr, hrow⟩ := Option.map_eq_some_iff.1 conditions
  rw [← hrow, grade, (Rule.forChange?_eq _).trans hr]
  rfl

namespace Contract

variable {old new : Contract} {p : Path} {m n : Model}

section Records

variable (hm : old.index.get? p = some (.model m)) (hn : new.index.get? p = some (.model n))

include hm hn

/-- **What a change of the key says.**  It is listed if the declarations differ.  The key is called
added if there was none and there is one now, and changed if there was another one before.  It is
called removed if there is none now; whether there was one before is not asked.  To gain a key is a
warning, and the other two are breaking. -/
theorem primaryKey_changes :
    ((∃ c ∈ (old.compare new).changes, c.path = p ∧ c.group? = some .primaryKey) ↔
      m.primaryKey ≠ n.primaryKey) ∧
    ∀ c ∈ (old.compare new).changes, c.path = p → c.group? = some .primaryKey → ∀ settings,
      let rule := (c.grade settings).rule
      (rule.id = "model-primary-key-added" ↔ m.key? = none ∧ n.key? ≠ none) ∧
      (rule.id = "model-primary-key-removed" ↔ n.key? = none) ∧
      (rule.id = "model-primary-key-changed" ↔
        ∃ k l, m.key? = some k ∧ n.key? = some l ∧ k ≠ l) ∧
      rule.severity = if m.key? = none ∧ n.key? ≠ none then .warning else .breaking := by
  constructor
  · rw [exists_group_iff hm hn, Model.primaryKey_mem_differences_iff]
  · intro c hc hp hgroup settings rule
    obtain ⟨rfl, hdiffer⟩ := eq_modified_of_group hm hn hc hp hgroup
    rw [Model.primaryKey_mem_differences_iff] at hdiffer
    have keys := Change.rule_primaryKey p m n settings
    have hid : rule.id = (m.keyRule n).1 := congrArg Prod.fst keys
    have hseverity : rule.severity = (m.keyRule n).2 := congrArg Prod.snd keys
    rw [hid, hseverity, Model.keyRule]
    cases hk : m.key? with
    | none => cases hl : n.key? <;> simp
    | some k =>
        cases hl : n.key? with
        | none => simp
        | some l =>
            -- both declare their keys, so that these differ as the declarations do
            rw [Model.primaryKey_of_key? hk, Model.primaryKey_of_key? hl] at hdiffer
            simpa using hdiffer

end Records

/-- A contract with one model, which has no fields. -/
def ofKey (declared : Option (List String)) : Contract :=
  { named "" "" "" with models := [{ name := "m", primaryKey := declared }] }

lemma get?_index_ofKey (declared : Option (List String)) :
    (ofKey declared).index.get? ["models", "m"] =
      some (.model { name := "m", primaryKey := declared }) := by
  rw [index, Entries.get?_ofList]
  rfl

/-- A key that is declared for the first time. -/
theorem primaryKey_changes_of_first_key :
    let old : Model := { name := "m" }
    let new : Model := { name := "m", primaryKey := some ["id"] }
    let change : Change := .modified ["models", "m"] .primaryKey (.model old) (.model new)
    (ofKey none).index.get? ["models", "m"] = some (.model old) ∧
      (ofKey (some ["id"])).index.get? ["models", "m"] = some (.model new) ∧
      change ∈ ((ofKey none).compare (ofKey (some ["id"]))).changes ∧
      (change.grade {}).rule.id = "model-primary-key-added" ∧
      (change.grade {}).rule.severity = .warning := by
  intro old new change
  have hold := get?_index_ofKey none
  have hnew := get?_index_ofKey (some ["id"])
  have hc : change ∈ ((ofKey none).compare (ofKey (some ["id"]))).changes :=
    modified_mem_iff.2 ⟨hold, hnew, by decide⟩
  obtain ⟨added, _, _, severity⟩ := (primaryKey_changes hold hnew).2 change hc rfl rfl {}
  exact ⟨hold, hnew, hc, added.2 (by decide), severity⟩

/-- **A key can be called removed where there was none**: it is enough that its list of columns is
there and empty, and the gate closes. -/
theorem key_removed_of_empty_declaration :
    let old : Model := { name := "m" }
    let new : Model := { name := "m", primaryKey := some [] }
    let change : Change := .modified ["models", "m"] .primaryKey (.model old) (.model new)
    old.key? = none ∧ new.key? = none ∧
      change ∈ ((ofKey none).compare (ofKey (some []))).changes ∧
      (change.grade {}).rule.id = "model-primary-key-removed" ∧
      (change.grade {}).severity = .breaking ∧
      ((ofKey none).changelog (ofKey (some [])) {}).passes .breaking = false := by
  intro old new change
  have hc : change ∈ ((ofKey none).compare (ofKey (some []))).changes :=
    modified_mem_iff.2 ⟨get?_index_ofKey none, get?_index_ofKey (some []), by decide⟩
  have keys := Change.rule_primaryKey ["models", "m"] old new {}
  refine ⟨rfl, rfl, hc, congrArg Prod.fst keys, ?_, by decide +kernel⟩
  exact Change.severity_model_eq_breaking_iff.2 (.inr ⟨rfl, .inr rfl⟩)

end Contract

end ContractDrift
