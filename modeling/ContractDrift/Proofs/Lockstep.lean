import ContractDrift.Proofs.Termination

/-!
# Two loads in lockstep

Fields are loaded by the same steps whatever they are declared as, and only where a reference is
followed does it matter what else is known.  So two loads that agree there agree altogether: the
same document with two fetchers, say, or a document and one in which the references were replaced
by hand.

* `Alike` — two results of which the second is like the first, unless the first is an error that is
  excused.
* `FieldDeclaration.Matches` — two declarations, their references followed, that differ in nothing
  but related parts; `LoadContext.InStep` — a relation that is kept where references are followed.
* **`LoadContext.InStep.field`** — then fields that are related are loaded alike.
* **`LoadContext.InStep.ofDeclaration`** — and so are contracts.
* **`Contract.ofDeclaration_congr`** — one document is loaded twice to the same end if what comes up
  in it is inlined to the same.
-/

namespace ContractDrift

/-! ## Results that are alike -/

section Results

variable {α β γ δ : Type} {excused : LoadError → Prop} {S : α → β → Prop} {T : γ → δ → Prop}

/-- The second result is like the first: values are related, and errors are the same.  Where the
first is an excused error nothing is said about the second. -/
inductive Alike (excused : LoadError → Prop) (S : α → β → Prop) :
    Except LoadError α → Except LoadError β → Prop where
  | ok {a b} (h : S a b) : Alike excused S (.ok a) (.ok b)
  | error {e} : Alike excused S (.error e) (.error e)
  | excused {e y} (h : excused e) : Alike excused S (.error e) y

namespace Alike

lemma refl : ∀ x : Except LoadError α, Alike excused Eq x x
  | .ok _ => .ok rfl
  | .error _ => .error

lemma of_eq {x y : Except LoadError α} (h : x = y) : Alike excused Eq x y := h ▸ refl x

/-- Without excuses alike results are the same. -/
lemma eq {x y : Except LoadError α} (h : Alike (fun _ => False) Eq x y) : x = y := by
  cases h with
  | ok h => rw [h]
  | error => rfl
  | excused h => exact h.elim

lemma eq_ok {x y : Except LoadError α} {a : α} (h : Alike excused Eq x y) (hx : x = .ok a) :
    y = .ok a := by
  cases h with
  | ok h => rw [← h, hx]
  | error => cases hx
  | excused => cases hx

/-- Steps that are alike one after the other are alike together. -/
lemma bind {x : Except LoadError α} {y : Except LoadError β} {f : α → Except LoadError γ}
    {g : β → Except LoadError δ} (h : Alike excused S x y)
    (hfg : ∀ a b, x = .ok a → S a b → Alike excused T (f a) (g b)) :
    Alike excused T (x >>= f) (y >>= g) := by
  cases h with
  | ok h => exact hfg _ _ rfl h
  | error => exact .error
  | excused h => exact .excused h

lemma bind_eq {x y : Except LoadError α} {f g : α → Except LoadError γ}
    (h : Alike excused Eq x y) (hfg : ∀ a, Alike excused Eq (f a) (g a)) :
    Alike excused Eq (x >>= f) (y >>= g) :=
  h.bind fun a _ _ hab => hab ▸ hfg a

lemma mapM {f : α → Except LoadError γ} {g : β → Except LoadError γ} {l : List α} {m : List β}
    (h : List.Forall₂ (fun a b => Alike excused Eq (f a) (g b)) l m) :
    Alike excused Eq (l.mapM f) (m.mapM g) := by
  induction h with
  | nil => exact refl _
  | cons hab _ ih =>
      rw [List.mapM_cons, List.mapM_cons]
      exact hab.bind_eq fun c => ih.bind_eq fun cs => refl _

end Alike

end Results

/-! ## Declarations that match -/

/-- Lists with the same names in the same order, where what has a name is related. -/
abbrev Namewise {α β : Type} (R : α → β → Prop) : List (String × α) → List (String × β) → Prop :=
  List.Forall₂ fun x y => x.1 = y.1 ∧ R x.2 y.2

namespace Namewise

variable {α β γ : Type} {R : α → β → Prop} {l : List (String × α)} {m : List (String × β)}

lemma names (h : Namewise R l m) : m.map Prod.fst = l.map Prod.fst :=
  map_eq_of_forall₂ h fun _ _ hxy => hxy.1.symm

lemma isEmpty (h : Namewise R l m) : m.isEmpty = l.isEmpty := by
  cases h <;> rfl

lemma iff_zip :
    Namewise R l m ↔ m.map Prod.fst = l.map Prod.fst ∧ ∀ p ∈ l.zip m, R p.1.2 p.2.2 := by
  induction l generalizing m with
  | nil => simp [Namewise]
  | cons x l ih =>
      cases m with
      | nil => simp [Namewise]
      | cons y m =>
          rw [Namewise, List.forall₂_cons, ← Namewise, ih]
          simp only [List.map_cons, List.cons.injEq, List.zip_cons_cons, List.mem_cons,
            forall_eq_or_imp]
          constructor
          · rintro ⟨⟨name, hxy⟩, names, inside⟩
            exact ⟨⟨name.symm, names⟩, hxy, inside⟩
          · rintro ⟨⟨name, names⟩, hxy, inside⟩
            exact ⟨⟨name.symm, hxy⟩, names, inside⟩

lemma imp_of_mem {S : α → β → Prop} (h : Namewise R l m)
    (hRS : ∀ x ∈ l, ∀ y, R x.2 y → S x.2 y) : Namewise S l m := by
  refine ((List.forall₂_and_left _ _).2 ⟨hRS, h⟩).imp ?_
  rintro x y ⟨hx, hname, hxy⟩
  exact ⟨hname, hx _ hxy⟩

/-- Related lists are the same if all that is related is. -/
lemma unique {S : α → β → Prop} {n : List (String × β)} (h : Namewise R l m)
    (h' : Namewise S l n) (hRS : ∀ x y z, R x y → S x z → y = z) : m = n := by
  induction h generalizing n with
  | nil =>
      cases h'
      rfl
  | cons hxy _ ih =>
      cases h' with
      | cons hxz hrest =>
          have hvalue := hRS _ _ _ hxy.2 hxz.2
          rw [ih hrest, Prod.ext (hxy.1.symm.trans hxz.1) hvalue]

lemma exists_of_forall (h : ∀ x ∈ l, ∃ y, R x.2 y) : ∃ m, Namewise R l m := by
  induction l with
  | nil => exact ⟨[], .nil⟩
  | cons x l ih =>
      obtain ⟨y, hy⟩ := h x List.mem_cons_self
      obtain ⟨m, hm⟩ := ih fun z hz => h z (List.mem_cons_of_mem x hz)
      exact ⟨(x.1, y) :: m, .cons ⟨rfl, hy⟩ hm⟩

end Namewise

namespace FieldDeclaration

/-- Two declarations whose references were followed have the same keywords, and the parts that are
loaded with them are related.  Of an array with items these are the items; that there are fields
beside them has to agree. -/
inductive Matches (R : FieldDeclaration → FieldDeclaration → Prop) (f g : FieldDeclaration) :
    Prop where
  | items {i j} (keywords : g.keywords = f.keywords) (hword : f.typeWord = some "array")
      (hi : f.items = some i) (hj : g.items = some j) (h : R i j)
      (beside : g.fields.isEmpty = f.fields.isEmpty)
  | fields (keywords : g.keywords = f.keywords)
      (hitems : f.typeWord = some "array" → f.items = none ∧ g.items = none)
      (h : Namewise R f.fields g.fields)

namespace Matches

variable {R : FieldDeclaration → FieldDeclaration → Prop} {f g : FieldDeclaration}

lemma keywords (h : Matches R f g) : g.keywords = f.keywords := by
  cases h <;> assumption

lemma typeWord (h : Matches R f g) : g.typeWord = f.typeWord := by
  rw [FieldDeclaration.typeWord, h.keywords]
  rfl

lemma isEmpty (h : Matches R f g) : g.fields.isEmpty = f.fields.isEmpty := by
  cases h with
  | items _ _ _ _ _ beside => exact beside
  | fields _ _ h => exact h.isEmpty

lemma isObject (h : Matches R f g) : g.isObject = f.isObject := by
  rw [FieldDeclaration.isObject, h.typeWord, h.isEmpty]
  rfl

lemma namewise (h : Matches R f g) (hobject : f.isObject) : Namewise R f.fields g.fields := by
  cases h with
  | items _ hword => exact absurd hword (not_array_of_isObject hobject)
  | fields _ _ h => exact h

/-- A declaration matches itself if its parts are related to themselves. -/
lemma refl (h : ∀ part ∈ f.parts, R part part) : Matches R f f := by
  rcases f.array_or_not with ⟨i, hword, hi⟩ | hnone
  · refine .items rfl hword hi hi (h i ?_) rfl
    simp [parts_of_items hword hi]
  · refine .fields rfl (fun hword => ⟨hnone hword, hnone hword⟩) ?_
    rw [Namewise, List.forall₂_same]
    intro x hx
    refine ⟨rfl, h _ ?_⟩
    rw [parts_of_not_array hnone]
    exact List.mem_map_of_mem hx

end Matches

end FieldDeclaration

namespace LoadContext

/-! ## Fields -/

open FieldDeclaration (Matches)

variable {context other : LoadContext} {excused : LoadError → Prop}
  {R : FieldDeclaration → FieldDeclaration → Prop}

/-- Sections of rules are loaded the same way if the same specifications are found. -/
lemma rules_congr (hquality : context.settings.inlineQuality = other.settings.inlineQuality)
    (hspecification : ∀ r, context.specification r = other.specification r) (scope : String)
    (declared : Option (List RuleDeclaration)) :
    context.rules scope declared = other.rules scope declared := by
  have hinlined (v : Json) : context.inlined v = other.inlined v := by
    simp only [inlined, hspecification]
  have hrule (r : RuleDeclaration) : context.withSpecification r = other.withSpecification r := by
    simp only [withSpecification, inlinedSpecification, hinlined, hquality]
  have hrules (i : Nat) (l : List RuleDeclaration) :
      context.rulesFrom scope i l = other.rulesFrom scope i l := by
    induction l generalizing i with
    | nil => rfl
    | cons r l ih => simp only [rulesFrom, hrule, ih]
  simp only [rules, hrules]

/-- Two loads keep step: sections of rules are loaded the same way, and where references are
followed, declarations that are related become declarations that match. -/
structure InStep (excused : LoadError → Prop) (context other : LoadContext)
    (R : FieldDeclaration → FieldDeclaration → Prop) : Prop where
  rules : ∀ scope declared, context.rules scope declared = other.rules scope declared
  inline : ∀ {d e} path depth, R d e →
    Alike excused (Matches R) (context.withDefinition path depth d)
      (other.withDefinition path depth e)

/-- The fields of a list are loaded alike if each of them is. -/
lemma alike_fieldList {parent : String} {depth : Nat}
    {fields others : List (String × FieldDeclaration)} (hfields : Namewise R fields others)
    (h : ∀ x ∈ fields, ∀ e, R x.2 e →
      Alike excused Eq (context.field (memberPath parent x.1) depth x.1 x.2)
        (other.field (memberPath parent x.1) depth x.1 e)) :
    Alike excused Eq (context.fieldList parent depth fields)
      (other.fieldList parent depth others) := by
  rw [fieldList_eq, fieldList_eq, hfields.names]
  refine (Alike.refl _).bind_eq fun _ => Alike.mapM ?_
  refine ((List.forall₂_and_left _ _).2 ⟨h, hfields⟩).imp ?_
  rintro ⟨name, x⟩ ⟨_, y⟩ ⟨hx, rfl, hxy⟩
  exact hx y hxy

lemma alike_nestedShape {path : String} {depth : Nat} {container : Container}
    {keywords : ScalarKeywords} {fields others : List (String × FieldDeclaration)}
    (hfields : Namewise R fields others)
    (h : ∀ x ∈ fields, ∀ e, R x.2 e →
      Alike excused Eq (context.field (memberPath path x.1) (depth + 1) x.1 x.2)
        (other.field (memberPath path x.1) (depth + 1) x.1 e)) :
    Alike excused Eq (context.nestedShape path depth container keywords fields)
      (other.nestedShape path depth container keywords others) := by
  cases hkeywords : keywords.isEmpty with
  | false =>
      rw [nestedShape, nestedShape, hkeywords]
      exact .refl _
  | true =>
      rw [nestedShape_eq hkeywords, nestedShape_eq hkeywords]
      exact (alike_fieldList hfields h).bind_eq fun _ => .refl _

lemma scalarShape_congr {path word : String} {f g : FieldDeclaration}
    (keywords : g.keywords = f.keywords) (fields : g.fields.isEmpty = f.fields.isEmpty) :
    scalarShape path word g = scalarShape path word f := by
  simp only [scalarShape, FieldDeclaration.dataType, keywords, fields]

namespace InStep

variable (h : InStep excused context other R)
include h

/-- The induction over fields and shapes, for the first of the two loads. -/
lemma all :
    (∀ path depth name d e, R d e →
      Alike excused Eq (context.field path depth name d) (other.field path depth name e)) ∧
    (∀ path depth f g, Matches R f g →
      Alike excused Eq (context.shape path depth f) (other.shape path depth g)) := by
  refine induction_on_fields context ?_ ?_
  · intro path depth name d ih e hde
    rw [field_eq, field_eq]
    refine (h.inline path depth hde).bind fun f g hf hfg => ?_
    refine (ih f hf g hfg).bind_eq fun s => ?_
    rw [hfg.keywords, h.rules]
    exact .refl _
  · intro path depth f members inner g hfg
    cases hobject : f.isObject with
    | true =>
        rw [shape_of_isObject hobject, shape_of_isObject (hfg.isObject.trans hobject),
          hfg.keywords]
        exact alike_nestedShape (hfg.namewise hobject) members
    | false =>
        have hobject' := hfg.isObject.trans hobject
        have hword := hfg.typeWord
        cases hfg with
        | items keywords harray hi hj hij beside =>
            rw [shape_of_array harray hi, shape_of_array (hword.trans harray) hj, keywords, beside]
            refine (h.inline _ _ hij).bind fun items others hitems hmatch => ?_
            obtain ⟨itemMembers, itemShape⟩ := inner _ items hi hitems
            rw [hmatch.isObject]
            cases hitem : items.isObject with
            | true =>
                rw [if_pos rfl, if_pos rfl]
                split
                · exact alike_nestedShape (hmatch.namewise hitem) itemMembers
                · exact .error
            | false =>
                rw [if_neg Bool.false_ne_true, if_neg Bool.false_ne_true]
                exact (itemShape _ hmatch).bind_eq fun _ => .refl _
        | fields keywords hitems hfields =>
            rw [shape_of_scalar hobject fun h => (hitems h).1,
              shape_of_scalar hobject' fun h => (hitems (hword ▸ h)).2, hword]
            cases f.typeWord with
            | none => exact .error
            | some word =>
                exact .of_eq (scalarShape_congr keywords hfields.isEmpty).symm

/-- **Fields that are related are loaded alike.** -/
theorem field {d e : FieldDeclaration} (hde : R d e) (path : String) (depth : Nat) (name : String) :
    Alike excused Eq (context.field path depth name d) (other.field path depth name e) :=
  h.all.1 path depth name d e hde

lemma fieldList {fields others : List (String × FieldDeclaration)}
    (hfields : Namewise R fields others) (parent : String) (depth : Nat) :
    Alike excused Eq (context.fieldList parent depth fields)
      (other.fieldList parent depth others) :=
  alike_fieldList hfields fun x _ _ hxy => h.field hxy _ _ x.1

end InStep

end LoadContext

/-! ## Contracts -/

/-- Two models that differ in nothing but related fields. -/
inductive ModelDeclaration.Matches (R : FieldDeclaration → FieldDeclaration → Prop)
    (m : ModelDeclaration) : ModelDeclaration → Prop where
  | intro {fields} (h : Namewise R m.fields fields) : Matches R m { m with fields }

/-- Two documents that differ in nothing but related fields of models, and in their definitions. -/
inductive ContractDeclaration.Matches (R : FieldDeclaration → FieldDeclaration → Prop)
    (c : ContractDeclaration) : ContractDeclaration → Prop where
  | intro {models definitions} (h : Namewise (ModelDeclaration.Matches R) c.models models) :
      Matches R c { c with models, definitions }

namespace ModelDeclaration.Matches

variable {R S : FieldDeclaration → FieldDeclaration → Prop} {m n o : ModelDeclaration}

lemma unique (hR : ∀ x y z, R x y → R x z → y = z) (hn : m.Matches R n) (ho : m.Matches R o) :
    n = o := by
  obtain ⟨hn⟩ := hn
  obtain ⟨ho⟩ := ho
  rw [hn.unique ho hR]

lemma imp_of_mem (h : m.Matches R n) (hRS : ∀ x ∈ m.fields, ∀ y, R x.2 y → S x.2 y) :
    m.Matches S n := by
  obtain ⟨h⟩ := h
  exact .intro (h.imp_of_mem hRS)

lemma exists_of_forall (h : ∀ x ∈ m.fields, ∃ y, R x.2 y) : ∃ n, m.Matches R n := by
  obtain ⟨fields, hfields⟩ := Namewise.exists_of_forall h
  exact ⟨_, .intro hfields⟩

end ModelDeclaration.Matches

namespace LoadContext.InStep

variable {context other : LoadContext} {excused : LoadError → Prop}
  {R : FieldDeclaration → FieldDeclaration → Prop}

lemma model (h : InStep excused context other R) {m n : ModelDeclaration} (hmn : m.Matches R n)
    (name : String) : Alike excused Eq (context.model name m) (other.model name n) := by
  obtain ⟨hfields⟩ := hmn
  rw [LoadContext.model, LoadContext.model]
  refine (h.fieldList hfields _ _).bind_eq fun fields => ?_
  rw [h.rules]
  exact .refl _

/-- **Contracts of documents that match are loaded alike** if the two loads keep step. -/
theorem ofDeclaration {settings settings' : LoaderSettings} {fetcher fetcher' : Fetcher}
    {base base' : Option String} {c d : ContractDeclaration}
    (h : InStep excused (c.loadContext settings fetcher base)
      (d.loadContext settings' fetcher' base') R)
    (hcd : c.Matches R d) :
    Alike excused Eq (Contract.ofDeclaration settings fetcher base c)
      (Contract.ofDeclaration settings' fetcher' base' d) := by
  obtain ⟨hmodels⟩ := hcd
  rename_i models definitions
  rw [Contract.ofDeclaration, Contract.ofDeclaration, hmodels.names]
  refine (Alike.refl _).bind_eq fun _ => (Alike.refl _).bind_eq fun _ =>
    (Alike.refl _).bind_eq fun servers => ?_
  refine (Alike.mapM (hmodels.imp ?_)).bind_eq fun models => ?_
  · rintro ⟨name, m⟩ ⟨_, n⟩ ⟨rfl, hmn⟩
    exact h.model hmn name
  · exact (Alike.of_eq (h.rules _ _)).bind_eq fun _ => .refl _

end LoadContext.InStep

/-! ## One document, loaded twice -/

namespace LoadContext

variable {context other : LoadContext} {c : ContractDeclaration} {d f : FieldDeclaration}

lemma definition_congr (hdefinitions : context.definitions = other.definitions)
    (hfetch : ∀ r, context.fetcher.fetchReference r context.base =
      other.fetcher.fetchReference r other.base) {path r : String} :
    context.definition path r = other.definition path r := by
  unfold definition
  rw [hdefinitions]
  simp only [hfetch]

lemma specification_congr (hfetch : ∀ r, context.fetcher.fetchReference r context.base =
    other.fetcher.fetchReference r other.base) {r : String} :
    context.specification r = other.specification r := by
  unfold specification
  rw [hfetch]

/-- Where a reference is followed it matters what its definition is, but not what that refers to. -/
lemma withDefinition_congr
    (hsettings : context.settings.inlineDefinitions = other.settings.inlineDefinitions)
    (h : ∀ r, d.keywords.reference = some r → ∀ path,
      (context.definition path r).map FieldDeclaration.withoutReference =
        (other.definition path r).map FieldDeclaration.withoutReference)
    (path : String) (depth : Nat) :
    context.withDefinition path depth d = other.withDefinition path depth d := by
  -- What a definition refers to is not inherited.
  have inherited (k : LoadContext) (r : String) :
      (k.definition path r >>= fun t => Except.ok (d.withoutReference.inherit t)) =
        ((k.definition path r).map FieldDeclaration.withoutReference).map
          d.withoutReference.inherit := by
    cases k.definition path r <;> rfl
  cases hr : d.keywords.reference with
  | none =>
      rw [withDefinition, withDefinition, hr]
  | some r =>
      rw [withDefinition, withDefinition, hr, hsettings]
      simp only [inherited, h r hr path]

/-- The declaration comes up when the fields of models are unfolded. -/
def ComesUp (context : LoadContext) (c : ContractDeclaration) (d : FieldDeclaration) : Prop :=
  ∃ m ∈ c.models, ∃ x ∈ m.2.fields, Relation.ReflTransGen context.HasPart x.2 d

lemma ComesUp.part (h : context.ComesUp c d) (hf : context.Inlines d f) :
    ∀ part ∈ f.parts, context.ComesUp c part := by
  intro part hpart
  obtain ⟨m, hm, x, hx, hd⟩ := h
  exact ⟨m, hm, x, hx, hd.tail ⟨f, hf, hpart⟩⟩

/-- In a loaded contract the references of all that comes up were followed. -/
lemma exists_inlines_of_ofDeclaration {settings : LoaderSettings} {fetcher : Fetcher}
    {base : Option String} {k : Contract}
    (h : Contract.ofDeclaration settings fetcher base c = .ok k)
    (hd : (c.loadContext settings fetcher base).ComesUp c d) :
    ∃ f, (c.loadContext settings fetcher base).Inlines d f := by
  obtain ⟨m, hm, x, hx, hd⟩ := hd
  refine forall_of_ofDeclaration h (P := fun x =>
    Relation.ReflTransGen (c.loadContext settings fetcher base).HasPart x d →
      ∃ f, (c.loadContext settings fetcher base).Inlines d f) ?_ hm hx hd
  intro x f hf hparts hd
  rcases Relation.ReflTransGen.cases_head hd with rfl | ⟨part, ⟨g, hg, hpart⟩, hd⟩
  · exact ⟨f, hf⟩
  · cases hf.unique hg
    exact hparts part hpart hd

end LoadContext

namespace Contract

variable {settings settings' : LoaderSettings} {fetcher fetcher' : Fetcher}
  {base base' : Option String} {c : ContractDeclaration}
  {definitions : List (String × FieldDeclaration)}

/-- **Only the declarations that come up matter.**  A document is loaded twice to the same end if
each of these is inlined to the same, and if sections of rules are loaded the same way. -/
theorem ofDeclaration_congr
    (hrules : ∀ scope declared, (c.loadContext settings fetcher base).rules scope declared =
      ({ c with definitions }.loadContext settings' fetcher' base').rules scope declared)
    (hinline : ∀ d, (c.loadContext settings fetcher base).ComesUp c d → ∀ path depth,
      (c.loadContext settings fetcher base).withDefinition path depth d =
        ({ c with definitions }.loadContext settings' fetcher' base').withDefinition path depth d) :
    ofDeclaration settings fetcher base c =
      ofDeclaration settings' fetcher' base' { c with definitions } := by
  let context := c.loadContext settings fetcher base
  -- A declaration is related to itself as long as it comes up.
  let Same (d e : FieldDeclaration) : Prop := d = e ∧ context.ComesUp c d
  have step : LoadContext.InStep (fun _ => False) context
      ({ c with definitions }.loadContext settings' fetcher' base') Same := by
    refine ⟨hrules, ?_⟩
    rintro d _ path depth ⟨rfl, hd⟩
    rw [← hinline d hd]
    cases hf : context.withDefinition path depth d with
    | error e => exact .error
    | ok f =>
        have hparts := hd.part (LoadContext.inlines_of_withDefinition hf)
        exact .ok (.refl fun part hpart => ⟨rfl, hparts part hpart⟩)
  refine (step.ofDeclaration (.intro ?_)).eq
  rw [Namewise, List.forall₂_same]
  intro m hm
  refine ⟨rfl, .intro ?_⟩
  rw [Namewise, List.forall₂_same]
  exact fun x hx => ⟨rfl, rfl, m, hm, x, hx, .refl⟩

/-- Of the definitions only those of references that come up matter, and of these not what they
refer to. -/
lemma ofDeclaration_definition_congr
    (hdefinition : ∀ d r, (c.loadContext settings fetcher base).ComesUp c d →
      d.keywords.reference = some r → ∀ path,
      ((c.loadContext settings fetcher base).definition path r).map
          FieldDeclaration.withoutReference =
        (({ c with definitions }.loadContext settings fetcher' base').definition path r).map
          FieldDeclaration.withoutReference)
    (hspecification : ∀ r, (c.loadContext settings fetcher base).specification r =
      ({ c with definitions }.loadContext settings fetcher' base').specification r) :
    ofDeclaration settings fetcher base c =
      ofDeclaration settings fetcher' base' { c with definitions } :=
  ofDeclaration_congr (LoadContext.rules_congr rfl hspecification) fun d hd =>
    LoadContext.withDefinition_congr rfl (hdefinition d · hd)

end Contract

end ContractDrift
