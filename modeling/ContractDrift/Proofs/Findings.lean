import ContractDrift.Lint.Check
import ContractDrift.Proofs.Places

/-!
# What is found where

The findings about a contract are collected while walking through its models and fields.  This file
says which findings there are, without the walk: what is wrong with a model or a field by itself is
found at its path, at any depth, and what is wrong with a rule at its place in its scope.

* `QualityRule.mem_findings_iff`, `Field.mem_findings_iff`, `Model.mem_findings_iff` — the members
  of each part of the list.
* `Contract.RulesAt` — the scopes of rules; `Contract.FindingAt` — a problem and where it is found.
* **`Contract.mem_lint_iff`** — the findings of a check are these.
-/

namespace ContractDrift

variable {c : Contract} {p scope : Path} {problem : Problem}

/-! ## What is wrong with a part -/

namespace Constraints

variable {k : Constraints} {type : DataType}

@[simp] lemma mem_patternProblems_iff : problem ∈ k.patternProblems ↔
    ∃ pattern ∈ k.pattern, Pattern.isValid pattern = false ∧ problem = .invalidPattern := by
  rw [patternProblems]
  cases k.pattern <;> simp

@[simp] lemma mem_lengthProblems_iff : problem ∈ k.lengthProblems ↔ ∃ least ∈ k.minLength,
    ∃ greatest ∈ k.maxLength, greatest < least ∧ problem = .emptyLengthRange least greatest := by
  rw [lengthProblems]
  cases k.minLength <;> cases k.maxLength <;> simp

@[simp] lemma mem_valueProblems_iff : problem ∈ k.valueProblems ↔ ∃ least ∈ k.minimum,
    ∃ greatest ∈ k.maximum, least.order greatest = some .gt ∧
      problem = .emptyValueRange least greatest := by
  rw [valueProblems]
  cases k.minimum <;> cases k.maximum <;> simp

@[simp] lemma mem_enumerationProblems_iff : problem ∈ k.enumerationProblems ↔
    ∃ members ∈ k.allowed, members.isEmpty = true ∧ problem = .emptyEnumeration := by
  rw [enumerationProblems]
  cases k.allowed <;> simp

@[simp] lemma mem_textProblems_iff : problem ∈ k.textProblems type ↔
    ((k.minLength.isSome || k.maxLength.isSome) && !type.isTextual && type != .bytes) = true ∧
      problem = .lengthOfNonText type := by
  rw [textProblems, List.mem_ite_nil_right, List.mem_singleton]

@[simp] lemma mem_problems_iff : problem ∈ k.problems type ↔ problem ∈ k.patternProblems ∨
    problem ∈ k.lengthProblems ∨ problem ∈ k.valueProblems ∨ problem ∈ k.enumerationProblems ∨
      problem ∈ k.textProblems type := by
  simp only [problems, List.mem_append, or_assoc]

end Constraints

@[simp] lemma QualityRule.mem_problems_iff {r : QualityRule} :
    problem ∈ r.problems ↔ r.threshold.isEmpty = true ∧ problem = .emptyThreshold := by
  rw [problems, List.mem_ite_nil_right, List.mem_singleton]

@[simp] lemma Model.mem_problems_iff {m : Model} : problem ∈ m.problems ↔
    m.fields.isEmpty = true ∧ problem = .noFields ∨ ∃ column ∈ m.primaryKey.getD [],
      m.field? column = none ∧ problem = .missingKeyColumn column := by
  simp only [problems, List.mem_append, List.mem_ite_nil_right, List.mem_singleton, List.mem_map,
    List.mem_filter, Option.isNone_iff_eq_none, and_assoc, eq_comm (a := problem)]

@[simp] lemma Contract.mem_referenceProblems_iff {reference : String} :
    problem ∈ c.referenceProblems reference ↔
      referenceNames? reference = none ∧ problem = .malformedReference reference ∨
        ∃ names, referenceNames? reference = some names ∧ c.target? names = none ∧
          problem = .unresolvedReference reference := by
  rw [referenceProblems]
  cases referenceNames? reference with
  | none => simp
  | some names =>
      simp only [Option.some.injEq, exists_eq_left', reduceCtorEq, false_and, false_or]
      cases c.target? names <;> simp

@[simp] lemma Field.mem_problems_iff {f : Field} : problem ∈ f.problems c ↔
    (∃ reference ∈ f.attributes.references, problem ∈ c.referenceProblems reference) ∨
      ∃ a type k, f = .scalar a type k ∧ problem ∈ k.problems type := by
  unfold problems
  rw [List.mem_append]
  refine or_congr ?_ ?_
  · cases f.attributes.references <;> simp
  · cases f <;> simp

/-! ## The findings about a part -/

lemma mem_map_mk_iff {q : Path} {problems : List Problem} :
    (⟨p, problem⟩ : Finding) ∈ problems.map (Finding.mk q) ↔ p = q ∧ problem ∈ problems := by
  simp only [List.mem_map, Finding.mk.injEq]
  constructor
  · rintro ⟨_, hproblem, rfl, rfl⟩
    exact ⟨rfl, hproblem⟩
  · rintro ⟨rfl, hproblem⟩
    exact ⟨problem, hproblem, rfl, rfl⟩

/-- A rule is found at its place. -/
theorem QualityRule.mem_findings_iff {rules : List QualityRule} {i : ℕ} :
    (⟨p, problem⟩ : Finding) ∈ findings scope i rules ↔ ∃ (j : ℕ) (r : QualityRule),
      rules[j]? = some r ∧ p = r.place scope (i + j) ∧ problem ∈ r.problems := by
  induction rules generalizing i with
  | nil => simp [findings]
  | cons s rest ih =>
      rw [findings, List.mem_append, mem_map_mk_iff, ih]
      constructor
      · rintro (⟨rfl, hproblem⟩ | ⟨j, r, hr, rfl, hproblem⟩)
        · exact ⟨0, s, rfl, rfl, hproblem⟩
        · exact ⟨j + 1, r, hr, by rw [Nat.add_right_comm, Nat.add_assoc], hproblem⟩
      · rintro ⟨j, r, hr, rfl, hproblem⟩
        cases j with
        | zero =>
            obtain rfl : s = r := Option.some.inj hr
            exact .inl ⟨rfl, hproblem⟩
        | succ j =>
            exact .inr ⟨j, r, hr, by rw [Nat.add_right_comm, Nat.add_assoc], hproblem⟩

lemma Field.listFindings_eq_flatMap (c : Contract) (scope : Path) :
    ∀ fs : List Field, listFindings c scope fs = fs.flatMap (findings c scope)
  | [] => by simp [listFindings]
  | f :: rest => by rw [listFindings, List.flatMap_cons, listFindings_eq_flatMap c scope rest]

lemma Field.findings_eq (c : Contract) (scope : Path) (f : Field) : f.findings c scope =
    (f.problems c).map (Finding.mk (scope ++ [f.name])) ++
      (QualityRule.findings (scope ++ [f.name]) 0 f.attributes.quality ++
        f.children.flatMap (findings c (scope ++ [f.name, "fields"]))) := by
  cases f with
  | scalar a t k => simp [findings, children, name]
  | nested a k fs => simp [findings, children, name, listFindings_eq_flatMap]

theorem Field.mem_findings_iff {f : Field} {x : Finding} : x ∈ f.findings c scope ↔
    x ∈ (f.problems c).map (Finding.mk (scope ++ [f.name])) ∨
      x ∈ QualityRule.findings (scope ++ [f.name]) 0 f.attributes.quality ∨
        ∃ g ∈ f.children, x ∈ g.findings c (scope ++ [f.name, "fields"]) := by
  rw [findings_eq, List.mem_append, List.mem_append, List.mem_flatMap]

theorem Model.mem_findings_iff {m : Model} {x : Finding} : x ∈ m.findings c ↔
    x ∈ m.problems.map (Finding.mk ["models", m.name]) ∨
      x ∈ QualityRule.findings ["models", m.name] 0 m.quality ∨
        ∃ f ∈ m.fields, x ∈ f.findings c ["models", m.name, "fields"] := by
  simp only [findings, Field.listFindings_eq_flatMap, List.mem_append, List.mem_flatMap, or_assoc,
    List.cons_append, List.nil_append]

/-! ## The findings about a contract -/

namespace Contract

/-- The rules of the contract, of a model or of a field, and the path below which they stand. -/
inductive RulesAt (c : Contract) : Path → List QualityRule → Prop
  | contract : RulesAt c [] c.quality
  | model {p : Path} {m : Model} (owner : c.ModelAt p m) : RulesAt c p m.quality
  | field {p : Path} {f : Field} (owner : c.FieldAt p f) : RulesAt c p f.attributes.quality

/-- The problem of a model, a field or a rule is found at the path. -/
inductive FindingAt (c : Contract) : Path → Problem → Prop
  | model {p : Path} {m : Model} {problem : Problem} (owner : c.ModelAt p m)
      (here : problem ∈ m.problems) : FindingAt c p problem
  | field {p : Path} {f : Field} {problem : Problem} (owner : c.FieldAt p f)
      (here : problem ∈ f.problems c) : FindingAt c p problem
  | rule {scope : Path} {rules : List QualityRule} {i : ℕ} {r : QualityRule} {problem : Problem}
      (owner : c.RulesAt scope rules) (rule : rules[i]? = some r)
      (here : problem ∈ r.problems) : FindingAt c (r.place scope i) problem

lemma findingAt_of_mem_rules {rules : List QualityRule} (owner : c.RulesAt scope rules)
    (h : ⟨p, problem⟩ ∈ QualityRule.findings scope 0 rules) : c.FindingAt p problem := by
  obtain ⟨j, r, hr, rfl, hproblem⟩ := QualityRule.mem_findings_iff.1 h
  rw [Nat.zero_add]
  exact .rule owner hr hproblem

lemma mem_rules_findings {rules : List QualityRule} {i : ℕ} {r : QualityRule}
    (hr : rules[i]? = some r) (hproblem : problem ∈ r.problems) :
    ⟨r.place scope i, problem⟩ ∈ QualityRule.findings scope 0 rules :=
  QualityRule.mem_findings_iff.2 ⟨i, r, hr, by rw [Nat.zero_add], hproblem⟩

lemma findingAt_of_mem_field (f : Field) : ∀ (scope : Path), c.FieldAt (scope ++ [f.name]) f →
    ⟨p, problem⟩ ∈ f.findings c scope → c.FindingAt p problem := by
  induction f using Field.induction_on_children with
  | step f ih =>
      intro scope hf h
      rcases Field.mem_findings_iff.1 h with h | h | ⟨g, hg, h⟩
      · obtain ⟨rfl, hproblem⟩ := mem_map_mk_iff.1 h
        exact .field hf hproblem
      · exact findingAt_of_mem_rules (.field hf) h
      · exact ih g hg _ (by simpa using hf.inner hg) h

/-- All findings about a field of the contract are findings about the contract. -/
lemma FieldAt.findings_subset {f : Field} (h : c.FieldAt p f) :
    ∃ scope, p = scope ++ [f.name] ∧ ∀ x ∈ f.findings c scope, x ∈ c.lint.findings := by
  induction h with
  | @top m f hm hf =>
      refine ⟨["models", m.name, "fields"], rfl, fun x hx => List.mem_append_right _ ?_⟩
      exact List.mem_flatMap.2 ⟨m, hm, Model.mem_findings_iff.2 (.inr (.inr ⟨f, hf, hx⟩))⟩
  | @inner p f g _ hg ih =>
      obtain ⟨scope, rfl, hsub⟩ := ih
      refine ⟨scope ++ [f.name, "fields"], by simp, fun x hx => ?_⟩
      exact hsub x (Field.mem_findings_iff.2 (.inr (.inr ⟨g, hg, hx⟩)))

lemma RulesAt.findings_subset {rules : List QualityRule} (h : c.RulesAt scope rules) :
    ∀ x ∈ QualityRule.findings scope 0 rules, x ∈ c.lint.findings := by
  cases h with
  | contract => exact fun x hx => List.mem_append_left _ hx
  | model owner =>
      obtain ⟨hm, rfl⟩ := owner
      exact fun x hx => List.mem_append_right _
        (List.mem_flatMap.2 ⟨_, hm, Model.mem_findings_iff.2 (.inr (.inl hx))⟩)
  | field owner =>
      obtain ⟨scope, rfl, hsub⟩ := owner.findings_subset
      exact fun x hx => hsub x (Field.mem_findings_iff.2 (.inr (.inl hx)))

/-- **What a check finds is what is wrong with a part, at the path of the part.** -/
theorem mem_lint_iff : ⟨p, problem⟩ ∈ c.lint.findings ↔ c.FindingAt p problem := by
  constructor
  · intro h
    rcases List.mem_append.1 h with h | h
    · exact findingAt_of_mem_rules .contract h
    · obtain ⟨m, hm, h⟩ := List.mem_flatMap.1 h
      rcases Model.mem_findings_iff.1 h with h | h | ⟨f, hf, h⟩
      · obtain ⟨rfl, hproblem⟩ := mem_map_mk_iff.1 h
        exact .model ⟨hm, rfl⟩ hproblem
      · exact findingAt_of_mem_rules (.model ⟨hm, rfl⟩) h
      · exact findingAt_of_mem_field f ["models", m.name, "fields"] (.top hm hf) h
  · intro h
    cases h with
    | model owner here =>
        obtain ⟨hm, rfl⟩ := owner
        exact List.mem_append_right _ (List.mem_flatMap.2
          ⟨_, hm, Model.mem_findings_iff.2 (.inl (mem_map_mk_iff.2 ⟨rfl, here⟩))⟩)
    | field owner here =>
        obtain ⟨scope, rfl, hsub⟩ := FieldAt.findings_subset owner
        exact hsub _ (Field.mem_findings_iff.2 (.inl (mem_map_mk_iff.2 ⟨rfl, here⟩)))
    | rule owner rule here => exact owner.findings_subset _ (mem_rules_findings rule here)

/-- What neither models nor rules can have is found at fields. -/
lemma mem_lint_iff_fieldAt (hmodel : ∀ m : Model, problem ∉ m.problems)
    (hrule : problem ≠ .emptyThreshold) :
    ⟨p, problem⟩ ∈ c.lint.findings ↔ ∃ f, c.FieldAt p f ∧ problem ∈ f.problems c := by
  rw [mem_lint_iff]
  constructor
  · intro h
    cases h with
    | model _ here => exact absurd here (hmodel _)
    | field owner here => exact ⟨_, owner, here⟩
    | rule _ _ here => exact absurd (QualityRule.mem_problems_iff.1 here).2 hrule
  · rintro ⟨f, owner, here⟩
    exact .field owner here

/-- What neither fields nor rules can have is found at models. -/
lemma mem_lint_iff_modelAt (hfield : ∀ f : Field, problem ∉ f.problems c)
    (hrule : problem ≠ .emptyThreshold) :
    ⟨p, problem⟩ ∈ c.lint.findings ↔ ∃ m, c.ModelAt p m ∧ problem ∈ m.problems := by
  rw [mem_lint_iff]
  constructor
  · intro h
    cases h with
    | model owner here => exact ⟨_, owner, here⟩
    | field _ here => exact absurd here (hfield _)
    | rule _ _ here => exact absurd (QualityRule.mem_problems_iff.1 here).2 hrule
  · rintro ⟨m, owner, here⟩
    exact .model owner here

end Contract

end ContractDrift
