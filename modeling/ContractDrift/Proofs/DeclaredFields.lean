import ContractDrift.Proofs.LoadedNames
import ContractDrift.Proofs.Reordering
import ContractDrift.Proofs.Termination

/-!
# The fields of a contract are the declared ones

A declaration whose reference was followed has members: the fields of an object, and for an array
the fields of its items, if these are objects.  A loaded field has one field inside for each member,
in this order and by its name.  So the fields of a loaded contract stand where fields are declared,
at any depth and however many definitions are between.

* `LoadContext.HasMembers` — the declarations of the fields inside of a field.
* `LoadContext.FieldFrom` — a loaded field, its attributes and what is inside of it, held against
  its declaration; **`LoadContext.fieldFrom_of_loads`** — so it is with every loaded field.
* `LoadContext.DeclaredAt` — the declared fields of a document by their paths.
* **`Contract.exists_fieldAt_of_declaredAt`, `Contract.exists_declaredAt_of_fieldAt`** — a loaded
  contract has fields at these paths and at no others; **`Contract.fieldFrom_of_declaredAt`** — the
  field at a path is loaded from the declaration there.
-/

namespace ContractDrift

lemma ScalarKeywords.constraints_of_isEmpty {k : ScalarKeywords} (h : k.isEmpty = true) :
    k.constraints = {} := by
  obtain ⟨minLength, maxLength, pattern, format, minimum, maximum, exclusiveMinimum,
    exclusiveMaximum, allowed, precision, scale⟩ := k
  simp only [isEmpty, Bool.and_eq_true, Option.isNone_iff_eq_none] at h
  obtain ⟨⟨⟨⟨⟨⟨⟨⟨⟨⟨rfl, rfl⟩, rfl⟩, rfl⟩, rfl⟩, rfl⟩, rfl⟩, rfl⟩, rfl⟩, _⟩, _⟩ := h
  rfl

namespace LoadContext

/-! ## Members -/

/-- The declarations of the fields inside of a field: those of an object, and for an array those of
items that are objects. -/
inductive HasMembers (context : LoadContext) (f : FieldDeclaration) :
    List (String × FieldDeclaration) → Prop
  | object (hobject : f.isObject = true) : HasMembers context f f.fields
  | items {i items : FieldDeclaration} (hword : f.typeWord = some "array")
      (hitems : f.items = some i) (inlined : context.Inlines i items)
      (hobject : items.isObject = true) : HasMembers context f items.fields
  | scalar (hobject : f.isObject = false)
      (hitems : ∀ i items, f.typeWord = some "array" → f.items = some i →
        context.Inlines i items → items.isObject = false) : HasMembers context f []

/-- There are fields inside of a field at a place: it is an object, or an array whose items are
objects, when their reference has been followed. -/
inductive Nests (context : LoadContext) (path : String) (depth : Nat) (f : FieldDeclaration) : Prop
  | object (hobject : f.isObject = true) : Nests context path depth f
  | items {i items : FieldDeclaration} (hword : f.typeWord = some "array")
      (hitems : f.items = some i)
      (inlined : context.withDefinition (path ++ ".items") (depth + 1) i = .ok items)
      (hobject : items.isObject = true) : Nests context path depth f

variable {context : LoadContext} {path : String} {depth : Nat} {d e f : FieldDeclaration}
  {g : Field} {members : List (String × FieldDeclaration)}

lemma HasMembers.unique {others : List (String × FieldDeclaration)}
    (h : context.HasMembers f members) (h' : context.HasMembers f others) : members = others := by
  cases h with
  | object hobject =>
      cases h' with
      | object => rfl
      | items hword => exact absurd hword (FieldDeclaration.not_array_of_isObject hobject)
      | scalar hnot => exact absurd hobject (by simp [hnot])
  | items hword hitems inlined hobject =>
      cases h' with
      | object hnot => exact absurd hword (FieldDeclaration.not_array_of_isObject hnot)
      | items _ hitems' inlined' =>
          cases hitems.symm.trans hitems'
          rw [inlined.unique inlined']
      | scalar _ hnot => exact absurd hobject (by simp [hnot _ _ hword hitems inlined])
  | scalar hnot hnone =>
      cases h' with
      | object hobject => exact absurd hobject (by simp [hnot])
      | items hword hitems inlined hobject =>
          exact absurd hobject (by simp [hnone _ _ hword hitems inlined])
      | scalar => rfl

/-! ## One step of loading -/

/-- The field is loaded from a declaration under its name. -/
def Loads (context : LoadContext) (x : String × FieldDeclaration) (g : Field) : Prop :=
  ∃ path depth, context.field path depth x.1 x.2 = .ok g

lemma forall₂_loads_of_fieldList {parent : String} {fields : List (String × FieldDeclaration)}
    {fs : List Field} (h : context.fieldList parent depth fields = .ok fs) :
    List.Forall₂ context.Loads fields fs := by
  rw [fieldList_eq] at h
  obtain ⟨_, _, h⟩ := bind_eq_ok_iff.1 h
  exact (forall₂_of_mapM_eq_ok h).imp fun _ _ hx => ⟨_, _, hx⟩

/-- What is inside of a loaded field, and what the field says about values, held against a
declaration whose reference was followed. -/
structure ContentsFrom (context : LoadContext) (e : FieldDeclaration) (g : Field) : Prop where
  members : ∃ members, context.HasMembers e members ∧ List.Forall₂ context.Loads members g.children
  constraints : g.constraints?.getD {} = e.keywords.scalar.constraints
  nested : ∀ path depth, context.Nests path depth e → e.keywords.scalar.isEmpty = true

lemma contentsFrom_of_nestedShape {container : Container} {s : FieldShape}
    (hmembers : context.HasMembers f members)
    (h : context.nestedShape path depth container f.keywords.scalar members = .ok s)
    (a : FieldAttributes) : context.ContentsFrom f (s.field a) := by
  obtain ⟨hkeywords, fs, hfs, rfl⟩ := nestedShape_eq_ok_iff.1 h
  exact ⟨⟨members, hmembers, forall₂_loads_of_fieldList hfs⟩,
    (ScalarKeywords.constraints_of_isEmpty hkeywords).symm, fun _ _ _ => hkeywords⟩

/-- A field without fields inside has the keywords of its declaration. -/
lemma contentsFrom_scalar (hobject : f.isObject = false)
    (hitems : ∀ i items, f.typeWord = some "array" → f.items = some i →
      context.Inlines i items → items.isObject = false) (a : FieldAttributes) (type : DataType) :
    context.ContentsFrom f (.scalar a type f.keywords.scalar.constraints) where
  members := ⟨[], .scalar hobject hitems, .nil⟩
  constraints := rfl
  nested path depth hnests := by
    cases hnests with
    | object h => exact absurd h (by simp [hobject])
    | items hword hi inlined h =>
        exact absurd h (by simp [hitems _ _ hword hi (inlines_of_withDefinition inlined)])

/-- The three ways in which a shape is loaded. -/
lemma contentsFrom_of_shape {s : FieldShape} (h : context.shape path depth f = .ok s)
    (a : FieldAttributes) : context.ContentsFrom f (s.field a) := by
  cases hobject : f.isObject with
  | true =>
      rw [shape_of_isObject hobject] at h
      exact contentsFrom_of_nestedShape (.object hobject) h a
  | false =>
      rcases f.array_or_not with ⟨i, hword, hitems⟩ | hnone
      · rw [shape_of_array hword hitems] at h
        obtain ⟨items, hinlined, h⟩ := bind_eq_ok_iff.1 h
        have inlined := inlines_of_withDefinition hinlined
        cases hitem : items.isObject with
        | true =>
            rw [if_pos hitem] at h
            split at h
            · exact contentsFrom_of_nestedShape (.items hword hitems inlined hitem) h a
            · cases h
        | false =>
            rw [if_neg (by simp [hitem])] at h
            obtain ⟨t, _, h⟩ := bind_eq_ok_iff.1 h
            split at h
            · cases h
              refine contentsFrom_scalar hobject (fun j others _ hitems' inlined' => ?_) _ _
              cases hitems.symm.trans hitems'
              rw [inlined'.unique inlined, hitem]
            · cases h
      · rw [shape_of_scalar hobject hnone] at h
        split at h
        · unfold scalarShape at h
          split at h
          · obtain ⟨t, _, h⟩ := bind_eq_ok_iff.1 h
            cases h
            refine contentsFrom_scalar hobject (fun i items hword hitems _ => ?_) _ _
            cases (hnone hword).symm.trans hitems
          · cases h
        · cases h

/-- A loaded field held against its declaration, and this with its reference followed. -/
structure FieldFrom (context : LoadContext) (name : String) (d e : FieldDeclaration) (g : Field) :
    Prop where
  inlined : context.Inlines d e
  attributes : ∃ scope quality, context.rules scope e.keywords.quality = .ok quality ∧
    g.attributes = e.keywords.attributes name quality
  contents : context.ContentsFrom e g

/-- **What a loaded field comes from.** -/
theorem fieldFrom_of_loads {name : String} (h : context.Loads (name, d) g) :
    ∃ e, context.FieldFrom name d e g := by
  obtain ⟨path, depth, h⟩ := h
  rw [field_eq] at h
  obtain ⟨e, he, h⟩ := bind_eq_ok_iff.1 h
  obtain ⟨s, hs, h⟩ := bind_eq_ok_iff.1 h
  obtain ⟨quality, hquality, h⟩ := bind_eq_ok_iff.1 h
  cases h
  exact ⟨e, inlines_of_withDefinition he, ⟨_, quality, hquality, s.attributes_field _⟩,
    contentsFrom_of_shape hs _⟩

lemma FieldFrom.name_eq {name : String} (h : context.FieldFrom name d e g) : g.name = name := by
  obtain ⟨_, _, _, hattributes⟩ := h.attributes
  rw [Field.name, hattributes]
  rfl

lemma Loads.name_eq {x : String × FieldDeclaration} (h : context.Loads x g) : g.name = x.1 := by
  obtain ⟨_, he⟩ := fieldFrom_of_loads h
  exact he.name_eq

/-! ## Paths -/

/-- The declaration of a field at a path of a document: one of a model, or a member of a declared
field. -/
inductive DeclaredAt (context : LoadContext) (c : ContractDeclaration) :
    Path → FieldDeclaration → Prop
  | top {m : String × ModelDeclaration} {x : String × FieldDeclaration} (model : m ∈ c.models)
      (field : x ∈ m.2.fields) : DeclaredAt context c ["models", m.1, "fields", x.1] x.2
  | inner {p : Path} {d e : FieldDeclaration} {members : List (String × FieldDeclaration)}
      {x : String × FieldDeclaration} (owner : DeclaredAt context c p d)
      (inlined : context.Inlines d e) (hmembers : context.HasMembers e members)
      (field : x ∈ members) : DeclaredAt context c (p ++ ["fields", x.1]) x.2

lemma ModelFrom.forall₂_loads {name : String} {m : ModelDeclaration} {n : Model}
    (h : context.ModelFrom name m n) : List.Forall₂ context.Loads m.fields n.fields := by
  obtain ⟨_, _, hfields⟩ := h.fields
  exact forall₂_loads_of_fieldList hfields

end LoadContext

namespace Contract

variable {settings : LoaderSettings} {fetcher : Fetcher} {base : Option String}
  {c : ContractDeclaration} {k : Contract} {p : Path} {d : FieldDeclaration} {g : Field}

/-- **Where a field is declared a field is loaded**, and from this declaration. -/
theorem exists_fieldAt_of_declaredAt (h : ofDeclaration settings fetcher base c = .ok k)
    (hd : (c.loadContext settings fetcher base).DeclaredAt c p d) :
    ∃ g, k.FieldAt p g ∧ (c.loadContext settings fetcher base).Loads (g.name, d) g := by
  induction hd with
  | top hm hx =>
      obtain ⟨n, hn, hmodel⟩ := exists_right_of_forall₂ (contractFrom_of_ofDeclaration h).models hm
      obtain ⟨g, hg, hload⟩ := exists_right_of_forall₂ hmodel.forall₂_loads hx
      have field := FieldAt.top hn hg
      rw [hmodel.name, hload.name_eq] at field
      exact ⟨g, field, hload.name_eq ▸ hload⟩
  | inner _ inlined hmembers hx ih =>
      obtain ⟨owner, howner, hload⟩ := ih
      obtain ⟨e, he⟩ := LoadContext.fieldFrom_of_loads hload
      cases he.inlined.unique inlined
      obtain ⟨members, hmembers', inside⟩ := he.contents.members
      cases hmembers'.unique hmembers
      obtain ⟨g, hg, hload⟩ := exists_right_of_forall₂ inside hx
      have field := FieldAt.inner howner hg
      rw [hload.name_eq] at field
      exact ⟨g, field, hload.name_eq ▸ hload⟩

/-- **Where a field was loaded a field is declared.** -/
theorem exists_declaredAt_of_fieldAt (h : ofDeclaration settings fetcher base c = .ok k)
    (hg : k.FieldAt p g) : ∃ d, (c.loadContext settings fetcher base).DeclaredAt c p d ∧
      (c.loadContext settings fetcher base).Loads (g.name, d) g := by
  induction hg with
  | top hn hg =>
      obtain ⟨m, hm, hmodel⟩ := exists_left_of_forall₂ (contractFrom_of_ofDeclaration h).models hn
      obtain ⟨x, hx, hload⟩ := exists_left_of_forall₂ hmodel.forall₂_loads hg
      rw [hmodel.name, hload.name_eq]
      exact ⟨x.2, .top hm hx, hload⟩
  | inner _ hg ih =>
      obtain ⟨d, hd, hload⟩ := ih
      obtain ⟨e, he⟩ := LoadContext.fieldFrom_of_loads hload
      obtain ⟨members, hmembers, inside⟩ := he.contents.members
      obtain ⟨x, hx, hload⟩ := exists_left_of_forall₂ inside hg
      rw [hload.name_eq]
      exact ⟨x.2, .inner hd he.inlined hmembers hx, hload⟩

/-- **The field at a path is loaded from the declaration at this path**, whose reference was
followed. -/
theorem fieldFrom_of_declaredAt (h : ofDeclaration settings fetcher base c = .ok k)
    (hd : (c.loadContext settings fetcher base).DeclaredAt c p d) (hg : k.FieldAt p g) :
    ∃ e, (c.loadContext settings fetcher base).FieldFrom g.name d e g := by
  obtain ⟨g', hg', hload⟩ := exists_fieldAt_of_declaredAt h hd
  cases hg'.unique (namesDistinct_of_ofDeclaration h) hg
  exact LoadContext.fieldFrom_of_loads hload

end Contract

end ContractDrift
