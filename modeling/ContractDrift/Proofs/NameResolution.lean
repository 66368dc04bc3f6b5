import ContractDrift.Proofs.DistinctNames
import ContractDrift.Proofs.Findings
import ContractDrift.Proofs.TypeSpelling

/-!
# What the names of a reference lead to

A check follows the names of a reference through the fields, each time to the first of the name,
while an index has all fields under their paths.  If no name repeats both find the same: the fields
of a container are the parts at its path and the word `fields` and a name, and with a field the
index has the containers above it, so that no step of the way is missing.

* `referenceNames?_eq_some_iff` — a reference is two names or more, joined by points.
* `Path.ofNames` — the path of the field that names lead to.
* `Contract.FieldsAt` — the fields of the container at a path.
* **`Contract.target?_eq_some_iff`** — names lead to the field at their path.
* **`Contract.lint_resolves_as_index`** — references and key columns that a check does not find are
  those that the index does not have.
-/

namespace ContractDrift

/-! ## References as texts -/

/-- A name in a reference has no point. -/
lemma point_not_mem_of_isReferenceName {cs : List Char} (h : isReferenceName cs = true) :
    '.' ∉ cs := by
  cases cs with
  | nil => exact List.not_mem_nil
  | cons c rest =>
      rw [isReferenceName, Bool.and_eq_true, List.all_eq_true] at h
      rw [List.mem_cons, not_or]
      refine ⟨?_, fun hmem => absurd (h.2 _ hmem) (by decide)⟩
      rintro rfl
      exact absurd h.1 (by decide)

/-- Names without points are the parts of the text that joins them by points. -/
lemma fields_text {name : String} {names : List String}
    (h : ∀ s ∈ name :: names, '.' ∉ s.toList) :
    Text.fields '.' (Path.text (name :: names)).toList = (name :: names).map String.toList := by
  induction names generalizing name with
  | nil => simpa [Path.text] using Text.fields_of_not_mem (h name List.mem_cons_self)
  | cons next names ih =>
      obtain ⟨hname, hnames⟩ := List.forall_mem_cons.1 h
      have hrest := ih hnames
      rw [Path.text, String.toList_intercalate] at hrest ⊢
      rw [List.map_cons, List.map_cons, List.intercalate_cons_cons, List.append_assoc]
      exact (Text.fields_append hname).trans (congrArg _ hrest)

lemma map_toList_map_ofList (words : List (List Char)) :
    (words.map String.ofList).map String.toList = words := by
  rw [List.map_map]
  exact (List.map_congr_left fun w _ => String.toList_ofList).trans (List.map_id words)

/-- **A reference is two names or more, joined by points.** -/
theorem referenceNames?_eq_some_iff {reference : String} {names : List String} :
    referenceNames? reference = some names ↔ 2 ≤ names.length ∧
      (∀ s ∈ names, isReferenceName s.toList = true) ∧ reference = Path.text names := by
  simp only [referenceNames?, Option.ite_none_right_eq_some, Bool.and_eq_true, decide_eq_true_iff,
    Option.some.injEq]
  constructor
  · rintro ⟨⟨hlength, hwords⟩, rfl⟩
    refine ⟨by rwa [List.length_map], ?_, ?_⟩
    · rw [List.forall_mem_map]
      exact fun w hw => (String.toList_ofList (l := w)).symm ▸ List.all_eq_true.1 hwords w hw
    · rw [← String.toList_inj, Path.text, String.toList_intercalate, map_toList_map_ofList]
      exact (Text.intercalate_fields '.' _).symm
  · rintro ⟨hlength, hnames, rfl⟩
    cases names with
    | nil => cases hlength
    | cons name rest =>
        rw [fields_text fun s hs => point_not_mem_of_isReferenceName (hnames s hs)]
        refine ⟨⟨by rwa [List.length_map], ?_⟩, ?_⟩
        · rw [List.all_map, List.all_eq_true]
          exact hnames
        · rw [List.map_map]
          exact (List.map_congr_left fun s _ => String.ofList_toList).trans (List.map_id _)

/-! ## Fields of a container -/

namespace Contract

/-- The fields of the model or inside of the field at a path. -/
inductive FieldsAt (c : Contract) : Path → List Field → Prop
  | model {p : Path} {m : Model} (owner : c.ModelAt p m) : FieldsAt c p m.fields
  | field {p : Path} {f : Field} (owner : c.FieldAt p f) : FieldsAt c p f.children

variable {c : Contract} {p q : Path} {fs : List Field} {f : Field} {name : String}

lemma FieldsAt.containerAt (h : c.FieldsAt q fs) : c.ContainerAt q := by
  cases h with
  | model owner => exact .inl ⟨_, owner⟩
  | field owner => exact .inr ⟨_, owner⟩

/-- A field stands below the container that has it, under its name. -/
lemma fieldAt_append_iff : c.FieldAt (q ++ ["fields", name]) f ↔
    ∃ fs, c.FieldsAt q fs ∧ f ∈ fs ∧ f.name = name := by
  constructor
  · intro h
    generalize hp : q ++ ["fields", name] = p at h
    cases h with
    | @top m f model field =>
        have hp : q ++ ["fields", name] = ["models", m.name] ++ ["fields", f.name] := hp
        obtain ⟨rfl, hname⟩ := List.append_inj' hp rfl
        exact ⟨_, .model ⟨model, rfl⟩, field, by simpa using hname.symm⟩
    | inner owner field =>
        obtain ⟨rfl, hname⟩ := List.append_inj' hp rfl
        exact ⟨_, .field owner, field, by simpa using hname.symm⟩
  · rintro ⟨fs, hfs, hf, rfl⟩
    cases hfs with
    | model owner =>
        obtain ⟨model, rfl⟩ := owner
        exact .top model hf
    | field owner => exact .inner owner hf

/-- No two containers stand at one path. -/
lemma FieldsAt.unique (h : c.NamesDistinct) {gs : List Field} (hf : c.FieldsAt q fs)
    (hg : c.FieldsAt q gs) : fs = gs := by
  cases hf with
  | model owner =>
      cases hg with
      | model other => rw [owner.unique h other]
      | field other => cases owner.sort?.symm.trans other.sort?
  | field owner =>
      cases hg with
      | model other => cases owner.sort?.symm.trans other.sort?
      | field other => rw [owner.unique h other]

lemma FieldAt.namesDistinct (h : c.NamesDistinct) (hf : c.FieldAt p f) : f.NamesDistinct := by
  induction hf with
  | top model field => exact (h.models _ model).fields _ field
  | inner _ field ih =>
      cases ih with
      | intro _ _ children => exact children _ field

lemma FieldsAt.nodup_names (h : c.NamesDistinct) (hf : c.FieldsAt q fs) :
    (fs.map Field.name).Nodup := by
  cases hf with
  | model owner => exact (h.models _ owner.1).names
  | field owner =>
      cases owner.namesDistinct h with
      | intro _ names _ => exact names

/-- If no name repeats, the first of a name is the only one. -/
lemma find?_name_eq_some_iff {α : Type} {name : α → String} {l : List α} {s : String} {x : α}
    (h : (l.map name).Nodup) : l.find? (fun y => name y = s) = some x ↔ x ∈ l ∧ name x = s := by
  constructor
  · intro hfind
    exact ⟨List.mem_of_find?_eq_some hfind, by simpa using List.find?_some hfind⟩
  · rintro ⟨hx, rfl⟩
    cases hfind : l.find? (fun y => name y = name x) with
    | none => exact absurd (decide_eq_true rfl) (List.find?_eq_none.1 hfind x hx)
    | some y =>
        have hname : name y = name x := by simpa using List.find?_some hfind
        rw [List.inj_on_of_nodup_map h (List.mem_of_find?_eq_some hfind) hx hname]

/-- The field of a name is the part at its path. -/
lemma FieldsAt.find?_eq_some_iff (h : c.NamesDistinct) (hfs : c.FieldsAt q fs) :
    Field.find? name fs = some f ↔ c.FieldAt (q ++ ["fields", name]) f := by
  rw [Field.find?, find?_name_eq_some_iff (hfs.nodup_names h), fieldAt_append_iff]
  constructor
  · exact fun hf => ⟨fs, hfs, hf⟩
  · rintro ⟨gs, hgs, hf⟩
    rwa [hfs.unique h hgs]

end Contract

/-! ## Following names -/

/-- The way from a container to the field that names lead to. -/
def Path.throughFields (names : List String) : Path := names.flatMap fun name => ["fields", name]

/-- The path of the field that names lead to in a model. -/
def Path.ofNames (model : String) (names : List String) : Path :=
  ["models", model] ++ throughFields names

lemma Field.target?_cons_cons (fs : List Field) (name next : String) (names : List String) :
    target? fs (name :: next :: names) =
      (find? name fs).bind fun f => target? f.children (next :: names) := rfl

namespace Contract

variable {c : Contract} {q : Path} {fs : List Field} {f : Field} {name : String}
  {names : List String}

/-- With a field further below, the field on the way is there. -/
lemma exists_fieldAt_of_throughFields (hfs : c.FieldsAt q fs)
    (hf : c.FieldAt (q ++ Path.throughFields (name :: names)) f) :
    ∃ g, c.FieldAt (q ++ ["fields", name]) g := by
  obtain ⟨s, hs, hcont⟩ := hfs.containerAt.sort?
  have hsort := Path.sort?_append_fields name hs hcont
  refine (containerAt_of_isPrefix (.inr ⟨f, hf⟩) ?_ hsort).exists_fieldAt hsort
  exact ⟨Path.throughFields names, by simp [Path.throughFields]⟩

/-- **Names lead from a container to the field at their path below it.** -/
theorem FieldsAt.target?_eq_some_iff (h : c.NamesDistinct) (hfs : c.FieldsAt q fs) :
    Field.target? fs (name :: names) = some f ↔
      c.FieldAt (q ++ Path.throughFields (name :: names)) f := by
  induction names generalizing q fs name with
  | nil => exact hfs.find?_eq_some_iff h
  | cons next names ih =>
      have split : q ++ Path.throughFields (name :: next :: names) =
          q ++ ["fields", name] ++ Path.throughFields (next :: names) := by
        simp [Path.throughFields]
      rw [Field.target?_cons_cons, Option.bind_eq_some_iff]
      -- the other names lead on from the field of the first one, as from any container
      constructor
      · rintro ⟨g, hg, htarget⟩
        rw [split]
        exact (ih (.field ((hfs.find?_eq_some_iff h).1 hg))).1 htarget
      · intro hf
        obtain ⟨g, hg⟩ := exists_fieldAt_of_throughFields hfs hf
        refine ⟨g, (hfs.find?_eq_some_iff h).2 hg, ?_⟩
        rw [split] at hf
        exact (ih (.field hg)).2 hf

lemma model?_eq_some_iff (h : c.NamesDistinct) {m : Model} :
    c.model? name = some m ↔ c.ModelAt ["models", name] m := by
  rw [model?, find?_name_eq_some_iff h.names]
  simp only [ModelAt, List.cons.injEq, and_true, true_and, eq_comm]

/-- **Names lead to the field at their path.** -/
theorem target?_eq_some_iff (h : c.NamesDistinct) {model : String} :
    c.target? (model :: name :: names) = some f ↔
      c.FieldAt (Path.ofNames model (name :: names)) f := by
  rw [target?, Option.bind_eq_some_iff]
  constructor
  · rintro ⟨m, hm, htarget⟩
    exact (FieldsAt.target?_eq_some_iff h (.model ((model?_eq_some_iff h).1 hm))).1 htarget
  · intro hf
    have above : ["models", model] <+: Path.ofNames model (name :: names) := List.prefix_append _ _
    obtain ⟨m, hm⟩ := (containerAt_of_isPrefix (.inr ⟨f, hf⟩) above rfl).exists_modelAt rfl
    exact ⟨m, (model?_eq_some_iff h).2 hm, (FieldsAt.target?_eq_some_iff h (.model hm)).2 hf⟩

lemma sortBelow?_throughFields (top : NodeSort) (name : String) (names : List String) :
    Path.sortBelow? top (Path.throughFields (name :: names)) = some .field := by
  induction names generalizing top name with
  | nil => rfl
  | cons next names ih => exact ih .field next

/-- What an index has at the path of names is a field. -/
lemma get?_index_ofNames_eq_none_iff (h : c.NamesDistinct) {model : String} :
    c.index.get? (Path.ofNames model (name :: names)) = none ↔
      c.target? (model :: name :: names) = none := by
  rw [Option.eq_none_iff_forall_ne_some, Option.eq_none_iff_forall_ne_some]
  constructor
  · exact fun hnone f hf =>
      hnone (.field f) ((get?_index_field_iff h).2 ((target?_eq_some_iff h).1 hf))
  · intro hnone n hn
    have hsort := sort?_of_get?_index hn
    rw [Path.ofNames, List.cons_append, List.cons_append, List.nil_append, Path.sort?,
      sortBelow?_throughFields] at hsort
    cases n with
    | field f => exact hnone f ((target?_eq_some_iff h).2 ((get?_index_field_iff h).1 hn))
    | info _ | terms _ | server _ | model _ | quality _ => cases hsort

end Contract

/-! ## Names that are not found -/

namespace Contract

variable {c : Contract} {p : Path} {f : Field} {names : List String}

/-- A reference that does not resolve is found at its field. -/
lemma unresolvedReference_mem_lint_iff (h : c.NamesDistinct) (hf : c.FieldAt p f)
    {reference : String} (hreference : f.attributes.references = some reference)
    (hnames : referenceNames? reference = some names) :
    ⟨p, .unresolvedReference reference⟩ ∈ c.lint.findings ↔ c.target? names = none := by
  have own : .unresolvedReference reference ∈ f.problems c ↔ c.target? names = none := by
    simp [hreference, hnames]
  rw [mem_lint_iff_fieldAt (by simp) (by simp), ← own]
  constructor
  · rintro ⟨g, hg, hproblem⟩
    rwa [hf.unique h hg]
  · exact fun hproblem => ⟨f, hf, hproblem⟩

/-- A key column that is missing is found at its model. -/
lemma missingKeyColumn_mem_lint_iff (h : c.NamesDistinct) {m : Model} (hm : c.ModelAt p m)
    {columns : List String} (hcolumns : m.primaryKey = some columns) {column : String}
    (hcolumn : column ∈ columns) :
    ⟨p, .missingKeyColumn column⟩ ∈ c.lint.findings ↔ m.field? column = none := by
  have own : .missingKeyColumn column ∈ m.problems ↔ m.field? column = none := by
    simp [hcolumns, hcolumn]
  rw [mem_lint_iff_modelAt (by simp) (by simp), ← own]
  constructor
  · rintro ⟨n, hn, hproblem⟩
    rwa [ModelAt.unique h hm hn]
  · exact fun hproblem => ⟨m, hm, hproblem⟩

/-- **A check resolves names as the index does.**  If no name repeats, a reference of a field is
found not to resolve exactly if the index does not have the path of its names, at any depth; and a
column of a key is found to be missing exactly if the index does not have it below its model. -/
theorem lint_resolves_as_index (h : c.NamesDistinct) :
    (∀ {p : Path} {f : Field} {model name : String} {names : List String}, c.FieldAt p f →
      f.attributes.references = some (Path.text (model :: name :: names)) →
      (∀ s ∈ model :: name :: names, isReferenceName s.toList = true) →
        (⟨p, .unresolvedReference (Path.text (model :: name :: names))⟩ ∈ c.lint.findings ↔
          c.index.get? (Path.ofNames model (name :: names)) = none)) ∧
    ∀ m ∈ c.models, ∀ {columns : List String}, m.primaryKey = some columns →
      ∀ column ∈ columns,
        (⟨["models", m.name], .missingKeyColumn column⟩ ∈ c.lint.findings ↔
          c.index.get? ["models", m.name, "fields", column] = none) := by
  constructor
  · intro p f model name names hf hreference hnames
    have hread : referenceNames? (Path.text (model :: name :: names)) =
        some (model :: name :: names) :=
      referenceNames?_eq_some_iff.2 ⟨Nat.le_add_left 2 _, hnames, rfl⟩
    rw [unresolvedReference_mem_lint_iff h hf hreference hread, get?_index_ofNames_eq_none_iff h]
  · intro m hm columns hcolumns column hcolumn
    have hmodel : c.ModelAt ["models", m.name] m := ⟨hm, rfl⟩
    have htarget : c.target? [m.name, column] = m.field? column := by
      rw [target?, (model?_eq_some_iff h).2 hmodel]
      rfl
    rw [missingKeyColumn_mem_lint_iff h hmodel hcolumns hcolumn, ← htarget,
      ← get?_index_ofNames_eq_none_iff h]
    rfl

/-- An order refers to the address of its buyer and to a part of this address, which is a text, and
its key names a column that it does not have. -/
theorem lint_resolves_as_index_of_nested_fields :
    let order : Model :=
      { name := "orders"
        primaryKey := some ["id", "total"]
        fields := [
          .plain "id" .string,
          .nested { name := "buyer" } .object [.plain "email" .string],
          .scalar { name := "contact", references := some "orders.buyer.email" } .string {},
          .scalar { name := "domain", references := some "orders.buyer.email.host" } .string {}] }
    let shop : Contract := { named "shop" "Shop" "1.0.0" with models := [order] }
    ⟨["models", "orders", "fields", "contact"], .unresolvedReference "orders.buyer.email"⟩ ∉
        shop.lint.findings ∧
      ⟨["models", "orders", "fields", "domain"], .unresolvedReference "orders.buyer.email.host"⟩ ∈
        shop.lint.findings ∧
      ⟨["models", "orders"], .missingKeyColumn "id"⟩ ∉ shop.lint.findings ∧
      ⟨["models", "orders"], .missingKeyColumn "total"⟩ ∈ shop.lint.findings := by
  intro order shop
  have leaf : ∀ {a : FieldAttributes}, a.quality = [] →
      (Field.scalar a .string {}).NamesDistinct := fun {a} ha =>
    .intro (by simp [ha, QualityRule.NamesDistinct]) List.nodup_nil (by simp [Field.children])
  have distinct : shop.NamesDistinct := by
    refine ⟨List.nodup_nil, List.nodup_singleton _, List.nodup_nil, List.forall_mem_singleton.2 ?_⟩
    refine ⟨List.nodup_nil, by decide, ?_⟩
    simp only [order, List.forall_mem_cons, List.not_mem_nil, false_implies, implies_true, and_true]
    refine ⟨leaf rfl, ?_, leaf rfl, leaf rfl⟩
    exact .intro List.nodup_nil (List.nodup_singleton _) (List.forall_mem_singleton.2 (leaf rfl))
  obtain ⟨references, columns⟩ := lint_resolves_as_index distinct
  have hmodel : order ∈ shop.models := List.mem_singleton_self _
  have contact := @references _ _ "orders" "buyer" ["email"]
    (.top hmodel (.tail _ (.tail _ (.head _)))) rfl (by decide)
  have domain := @references _ _ "orders" "buyer" ["email", "host"]
    (.top hmodel (.tail _ (.tail _ (.tail _ (.head _))))) rfl (by decide)
  have id := columns order hmodel rfl "id" (by decide)
  have total := columns order hmodel rfl "total" (by decide)
  have lacks : ∀ {name : String} {names : List String},
      shop.index.get? (Path.ofNames "orders" (name :: names)) = none ↔
        shop.target? ("orders" :: name :: names) = none := get?_index_ofNames_eq_none_iff distinct
  refine ⟨fun hmem => ?_, domain.2 (lacks.2 rfl), fun hmem => ?_, total.2 ?_⟩
  · cases lacks.1 (contact.1 hmem)
  · have missing : shop.index.get? (Path.ofNames "orders" ["id"]) = none := id.1 hmem
    cases lacks.1 missing
  · exact (lacks.2 rfl : shop.index.get? (Path.ofNames "orders" ["total"]) = none)

end Contract

end ContractDrift
