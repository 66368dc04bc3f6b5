import ContractDrift.Proofs.LoadedNames
import ContractDrift.Proofs.Lockstep
import ContractDrift.Proofs.Merging

/-!
# Inlining is writing out

A field that refers to a definition gets what the definition has and the field does not.  It is
loaded as if that had been written into it by hand, and so on for the fields and items that come
with it.

* `FieldDeclaration.Filled` — a declaration with what its definition adds (`Proofs/Merging`);
  `FieldDeclaration.WrittenOut` — the same for all that is loaded with it.  Which definition a
  reference has is a parameter of both.
* `LoadContext.Target` — the definitions that the loader finds; `ContractDeclaration.Defines` —
  those of the document itself.
* `LoadContext.exists_target_of_ofDeclaration` — in a loaded contract each reference that comes up
  has a definition.
* **`FieldDeclaration.WrittenOut.unique`** — there is one way at most to write a document out.
* **`Contract.alike_of_writtenOut`** — a document that is written out is loaded as before, with
  inlining or without, unless a reference was too deep to be followed.
* **`Contract.ofDeclaration_writtenOut`** — a document with local references that is loaded can be
  written out, and what was written out gives the same contract.
-/

namespace ContractDrift

/-! ## Writing out -/

namespace FieldDeclaration

/-- A declaration, and if it has a reference what its definition and it merge to. -/
inductive Filled (target : String → FieldDeclaration → Prop) :
    FieldDeclaration → FieldDeclaration → Prop where
  | plain {d} (h : d.keywords.reference = none) : Filled target d d
  | refers {d r t e} (h : d.keywords.reference = some r) (ht : target r t)
      (hmerge : d.Merges t e) : Filled target d e

/-- A declaration in which each reference that is reached is written out: it is filled, and so are
the items of an array and the fields of all else, and what is inside of them. -/
inductive WrittenOut (target : String → FieldDeclaration → Prop) :
    FieldDeclaration → FieldDeclaration → Prop where
  | items {d f i j} (h : Filled target d f) (hword : f.typeWord = some "array")
      (hi : f.items = some i) (inside : WrittenOut target i j) :
      WrittenOut target d { f with items := some j }
  | fields {d f fields} (h : Filled target d f)
      (hitems : f.typeWord = some "array" → f.items = none)
      (names : fields.map Prod.fst = f.fields.map Prod.fst)
      (inside : ∀ p ∈ f.fields.zip fields, WrittenOut target p.1.2 p.2.2) :
      WrittenOut target d { f with fields }

variable {target : String → FieldDeclaration → Prop} {d e f g : FieldDeclaration}

namespace Filled

lemma reference_eq_none (h : Filled target d f) : f.keywords.reference = none := by
  cases h with
  | plain h => exact h
  | refers _ _ hmerge => exact hmerge.reference_eq_none

/-- If references have one definition at most, there is one way to fill a declaration. -/
lemma unique (htarget : ∀ r t u, target r t → target r u → t = u) (h : Filled target d f)
    (h' : Filled target d g) : f = g := by
  cases h with
  | plain h =>
      cases h' with
      | plain => rfl
      | refers h' => rw [h] at h'; cases h'
  | refers h ht hmerge =>
      cases h' with
      | plain h' => rw [h] at h'; cases h'
      | refers h' hu hmerge' =>
          rw [h] at h'
          cases h'
          cases htarget _ _ _ ht hu
          exact hmerge.unique hmerge'

lemma mono {target' : String → FieldDeclaration → Prop}
    (htarget : ∀ r t, d.keywords.reference = some r → target r t → target' r t)
    (h : Filled target d f) : Filled target' d f := by
  cases h with
  | plain h => exact .plain h
  | refers h ht hmerge => exact .refers h (htarget _ _ h ht) hmerge

end Filled

namespace WrittenOut

lemma of_namewise {fields : List (String × FieldDeclaration)} (h : Filled target d f)
    (hitems : f.typeWord = some "array" → f.items = none)
    (inside : Namewise (WrittenOut target) f.fields fields) :
    WrittenOut target d { f with fields } :=
  .fields h hitems (Namewise.iff_zip.1 inside).1 (Namewise.iff_zip.1 inside).2

/-- What was written out matches what its reference leads to. -/
lemma exists_matches (h : WrittenOut target d g) :
    ∃ f, Filled target d f ∧ Matches (WrittenOut target) f g := by
  cases h with
  | items h hword hi inside => exact ⟨_, h, .items rfl hword hi rfl inside rfl⟩
  | fields h hitems names inside =>
      exact ⟨_, h, .fields rfl (fun hword => ⟨hitems hword, hitems hword⟩)
        (Namewise.iff_zip.2 ⟨names, inside⟩)⟩

/-- What was written out has no reference. -/
lemma reference_eq_none (h : WrittenOut target d g) : g.keywords.reference = none := by
  obtain ⟨f, hf, hfg⟩ := h.exists_matches
  rw [hfg.keywords]
  exact hf.reference_eq_none

/-- If parts can be written out, so can the whole. -/
lemma exists_of_parts (h : Filled target d f)
    (hparts : ∀ part ∈ f.parts, ∃ g, WrittenOut target part g) : ∃ g, WrittenOut target d g := by
  rcases f.array_or_not with ⟨i, hword, hi⟩ | hnone
  · obtain ⟨j, hj⟩ := hparts i (by simp [parts_of_items hword hi])
    exact ⟨_, .items h hword hi hj⟩
  · rw [parts_of_not_array hnone] at hparts
    have hfields : ∀ x ∈ f.fields, ∃ g, WrittenOut target x.2 g :=
      fun x hx => hparts x.2 (List.mem_map_of_mem hx)
    obtain ⟨fields, hfields⟩ := Namewise.exists_of_forall hfields
    exact ⟨_, of_namewise h hnone hfields⟩

/-- **There is one way at most to write a declaration out**, if references have one definition at
most. -/
theorem unique (htarget : ∀ r t u, target r t → target r u → t = u) (h : WrittenOut target d e) :
    ∀ {g}, WrittenOut target d g → e = g := by
  induction h with
  | items h hword hi inside ih =>
      intro g hg
      cases hg with
      | items h' hword' hi' inside' =>
          cases h.unique htarget h'
          rw [hi] at hi'
          cases hi'
          rw [ih inside']
      | fields h' hitems' =>
          cases h.unique htarget h'
          rw [hitems' hword] at hi
          cases hi
  | @fields d f fields h hitems names inside ih =>
      intro g hg
      cases hg with
      | items h' hword' hi' =>
          cases h.unique htarget h'
          rw [hitems hword'] at hi'
          cases hi'
      | @fields _ _ fields' h' _ names' inside' =>
          cases h.unique htarget h'
          have hfields : Namewise (fun x y => ∀ {z}, WrittenOut target x z → y = z)
              f.fields fields := Namewise.iff_zip.2 ⟨names, ih⟩
          rw [hfields.unique (Namewise.iff_zip.2 ⟨names', inside'⟩) fun _ _ _ hy => hy]

/-- Writing out depends only on the definitions of the references that are reached: `P` holds of the
declaration and of all that is loaded with it. -/
lemma mono_of {target' : String → FieldDeclaration → Prop} {P : FieldDeclaration → Prop}
    (hparts : ∀ {d f}, P d → Filled target d f → ∀ part ∈ f.parts, P part)
    (htarget : ∀ {d}, P d → ∀ r t, d.keywords.reference = some r → target r t → target' r t)
    (h : WrittenOut target d g) : P d → WrittenOut target' d g := by
  induction h with
  | items h hword hi _ ih =>
      intro hd
      have hpart := hparts hd h
      rw [parts_of_items hword hi] at hpart
      exact .items (h.mono (htarget hd)) hword hi (ih (hpart _ List.mem_cons_self))
  | fields h hitems names _ ih =>
      intro hd
      refine .fields (h.mono (htarget hd)) hitems names fun p hp => ih p hp (hparts hd h _ ?_)
      rw [parts_of_not_array hitems]
      exact List.mem_map_of_mem (List.of_mem_zip hp).1

end WrittenOut

end FieldDeclaration

/-- The document in which the fields of models are written out; it has no definitions. -/
def ContractDeclaration.WrittenOut (target : String → FieldDeclaration → Prop)
    (c d : ContractDeclaration) : Prop :=
  c.Matches (FieldDeclaration.WrittenOut target) d ∧ d.definitions = []

/-- The name of a local reference is that of a definition of the document; of a name that repeats
the last one counts. -/
def ContractDeclaration.Defines (c : ContractDeclaration) (r : String) (t : FieldDeclaration) :
    Prop :=
  ∃ name, r = "#/definitions/" ++ name ∧ c.definitions.reverse.lookup name = some t

lemma Reference.ofText_eq_own_iff {r name : String} :
    Reference.ofText r = .own name ↔ r = "#/definitions/" ++ name := by
  have spelled : r = "#/definitions/" ++ name ↔
      Text.dropLead? "#/definitions/".toList r.toList = some name.toList := by
    rw [Text.dropLead?_eq_some_iff, ← String.toList_append, String.toList_inj]
  rw [spelled, Reference.ofText]
  cases Text.dropLead? "#/definitions/".toList r.toList with
  | none =>
      simp only [reduceCtorEq, iff_false]
      split <;> simp
  | some rest =>
      rw [Reference.own.injEq, Option.some.injEq, ← String.toList_inj, String.toList_ofList]

namespace LoadContext

open FieldDeclaration (Filled WrittenOut Matches)

variable {context other : LoadContext} {d f g : FieldDeclaration}

/-- The definition that the loader finds for a reference. -/
def Target (context : LoadContext) (r : String) (t : FieldDeclaration) : Prop :=
  ∃ path, context.definition path r = .ok t

lemma Target.definition {r : String} {t : FieldDeclaration} (h : context.Target r t)
    (path : String) : context.definition path r = .ok t := by
  obtain ⟨_, h⟩ := h
  exact definition_eq_ok h

lemma Target.unique (r : String) (t u : FieldDeclaration) (h : context.Target r t)
    (h' : context.Target r u) : t = u := by
  have := (h.definition "").symm.trans (h'.definition "")
  cases this
  rfl

/-- A local reference has the last definition of its name in the document that is loaded. -/
lemma target_local_iff {name : String} {t : FieldDeclaration} :
    context.Target ("#/definitions/" ++ name) t ↔
      context.definitions.reverse.lookup name = some t := by
  have hown : Reference.ofText ("#/definitions/" ++ name) = .own name :=
    Reference.ofText_eq_own_iff.2 rfl
  simp only [Target, definition, hown]
  cases context.definitions.reverse.lookup name <;> simp

lemma target_of_defines {c : ContractDeclaration} {settings : LoaderSettings} {fetcher : Fetcher}
    {base : Option String} {r : String} {t : FieldDeclaration} (h : c.Defines r t) :
    (c.loadContext settings fetcher base).Target r t := by
  obtain ⟨name, rfl, ht⟩ := h
  exact target_local_iff.2 ht

lemma defines_of_target {c : ContractDeclaration} {settings : LoaderSettings} {fetcher : Fetcher}
    {base : Option String} {name : String} {t : FieldDeclaration}
    (h : (c.loadContext settings fetcher base).Target ("#/definitions/" ++ name) t) :
    c.Defines ("#/definitions/" ++ name) t :=
  ⟨name, rfl, target_local_iff.1 h⟩

/-- A filled declaration is what the loader makes of it, where it is not too deep. -/
lemma withDefinition_of_filled (hinline : context.settings.inlineDefinitions = true)
    (h : Filled context.Target d f) {path : String} {depth : Nat}
    (hdepth : depth < greatestFieldDepth) : context.withDefinition path depth d = .ok f := by
  cases h with
  | plain h => rw [withDefinition, h]
  | refers h ht hmerge =>
      rw [withDefinition, h, FieldDeclaration.merges_iff.1 hmerge]
      simp only [if_neg (Nat.not_le.2 hdepth), hinline, if_true]
      exact bind_eq_of_ok (ht.definition path)

/-- What a declaration is filled to is loaded in its place. -/
lemma field_of_filled (hinline : context.settings.inlineDefinitions = true)
    (h : Filled context.Target d f) {path name : String} {depth : Nat}
    (hdepth : depth < greatestFieldDepth) :
    context.field path depth name d = context.field path depth name f := by
  have hf : context.withDefinition path depth f = .ok f := by
    rw [withDefinition, h.reference_eq_none]
  rw [field_eq, field_eq, withDefinition_of_filled hinline h hdepth, hf]

lemma inlines_iff_filled (hinline : context.settings.inlineDefinitions = true) :
    context.Inlines d f ↔ Filled context.Target d f := by
  constructor
  · rintro ⟨path, h⟩
    cases hr : d.keywords.reference with
    | none =>
        rw [withDefinition, hr] at h
        cases h
        exact .plain hr
    | some r =>
        rw [withDefinition, hr] at h
        simp only [if_neg (show ¬ greatestFieldDepth ≤ 0 by decide), hinline, if_true] at h
        obtain ⟨t, ht, h⟩ := bind_eq_ok_iff.1 h
        cases h
        exact .refers hr ⟨path, ht⟩ (FieldDeclaration.merges_inherit d t)
  · intro h
    exact ⟨"", withDefinition_of_filled hinline h (by decide)⟩

/-- In a loaded contract each reference that comes up has a definition. -/
lemma exists_target_of_ofDeclaration {settings : LoaderSettings} {fetcher : Fetcher}
    {base : Option String} {c : ContractDeclaration} {k : Contract}
    (hinline : settings.inlineDefinitions = true)
    (h : Contract.ofDeclaration settings fetcher base c = .ok k) {r : String}
    (hd : (c.loadContext settings fetcher base).ComesUp c d) (hr : d.keywords.reference = some r) :
    ∃ t e, (c.loadContext settings fetcher base).Target r t ∧ d.Merges t e ∧
      (c.loadContext settings fetcher base).Inlines d e := by
  obtain ⟨f, hf⟩ := exists_inlines_of_ofDeclaration h hd
  have hfilled := (inlines_iff_filled hinline).1 hf
  cases hfilled with
  | plain hnone => rw [hr] at hnone; cases hnone
  | refers hs ht hmerge =>
      rw [hr] at hs
      cases hs
      exact ⟨_, f, ht, hmerge, hf⟩

/-- Nothing is loaded if a reference that comes up has no definition. -/
lemma exists_error_of_no_target {settings : LoaderSettings} {fetcher : Fetcher}
    {base : Option String} {c : ContractDeclaration} (hinline : settings.inlineDefinitions = true)
    {r : String} (hd : (c.loadContext settings fetcher base).ComesUp c d)
    (hr : d.keywords.reference = some r)
    (hnone : ∀ t, ¬ (c.loadContext settings fetcher base).Target r t) :
    ∃ e, Contract.ofDeclaration settings fetcher base c = .error e := by
  cases h : Contract.ofDeclaration settings fetcher base c with
  | error e => exact ⟨e, rfl⟩
  | ok k =>
      obtain ⟨t, _, ht, _⟩ := exists_target_of_ofDeclaration hinline h hd hr
      exact absurd ht (hnone t)

/-! ## Loading what was written out -/

/-- Why a reference to nothing is refused, and one that is too deep. -/
def IsUnresolved (e : LoadError) : Prop := ∃ path r, e = .unresolvedReference path r

/-- A load with inlining and one of what was written out keep step. -/
lemma inStep_writtenOut (hinline : context.settings.inlineDefinitions = true)
    (hquality : context.settings.inlineQuality = other.settings.inlineQuality)
    (hfetcher : context.fetcher = other.fetcher) (hbase : context.base = other.base) :
    InStep IsUnresolved context other (WrittenOut context.Target) where
  rules := rules_congr hquality fun r => by rw [specification, specification, hfetcher, hbase]
  inline := by
    intro d e path depth h
    have hreference : other.withDefinition path depth e = .ok e := by
      rw [withDefinition, h.reference_eq_none]
    obtain ⟨f, hf, hmatches⟩ := h.exists_matches
    rw [hreference]
    rcases Nat.lt_or_ge depth greatestFieldDepth with hdepth | hdepth
    · rw [withDefinition_of_filled hinline hf hdepth]
      exact .ok hmatches
    · cases hr : d.keywords.reference with
      | none =>
          cases hf with
          | plain =>
              rw [withDefinition, hr]
              exact .ok hmatches
          | refers h => rw [hr] at h; cases h
      | some r =>
          rw [withDefinition_eq_error hr hdepth]
          exact .excused ⟨path, r, rfl⟩

end LoadContext

namespace ContractDeclaration

open FieldDeclaration (Filled)
open LoadContext (Target IsUnresolved)

variable {target target' : String → FieldDeclaration → Prop} {c d e : ContractDeclaration}

lemma WrittenOut.unique (htarget : ∀ r t u, target r t → target r u → t = u)
    (h : c.WrittenOut target d) (h' : c.WrittenOut target e) : d = e := by
  obtain ⟨⟨hd⟩, rfl⟩ := h
  obtain ⟨⟨he⟩, rfl⟩ := h'
  rw [hd.unique he fun _ _ _ => ModelDeclaration.Matches.unique fun _ _ _ hy hz =>
    hy.unique htarget hz]

lemma WrittenOut.mono_of {P : FieldDeclaration → Prop}
    (hmodels : ∀ m ∈ c.models, ∀ x ∈ m.2.fields, P x.2)
    (hparts : ∀ {d f}, P d → Filled target d f → ∀ part ∈ f.parts, P part)
    (htarget : ∀ {d}, P d → ∀ r t, d.keywords.reference = some r → target r t → target' r t)
    (h : c.WrittenOut target d) : c.WrittenOut target' d := by
  obtain ⟨⟨hd⟩, rfl⟩ := h
  refine ⟨.intro (hd.imp_of_mem fun m hm n hn => hn.imp_of_mem fun x hx y hy => ?_), rfl⟩
  exact hy.mono_of hparts htarget (hmodels m hm x hx)

/-- Only the references that come up matter. -/
lemma WrittenOut.mono_of_comesUp {settings : LoaderSettings} {fetcher : Fetcher}
    {base : Option String} (hinline : settings.inlineDefinitions = true)
    (htarget : ∀ e r t, (c.loadContext settings fetcher base).ComesUp c e →
      e.keywords.reference = some r → (c.loadContext settings fetcher base).Target r t →
      target' r t)
    (h : c.WrittenOut (c.loadContext settings fetcher base).Target d) :
    c.WrittenOut target' d := by
  refine h.mono_of (P := (c.loadContext settings fetcher base).ComesUp c)
    (fun m hm x hx => ⟨m, hm, x, hx, .refl⟩) ?_ fun he r t => htarget _ r t he
  intro e f he hf
  exact he.part ((LoadContext.inlines_iff_filled hinline).2 hf)

end ContractDeclaration

namespace Contract

open LoadContext (Target IsUnresolved)

variable {settings : LoaderSettings} {fetcher : Fetcher} {base : Option String}
  {c : ContractDeclaration} {k : Contract}

/-- **A document that is written out is loaded as before**, with inlining or without, unless a
reference was too deep to be followed. -/
theorem alike_of_writtenOut (hinline : settings.inlineDefinitions = true) {d : ContractDeclaration}
    (h : c.WrittenOut (c.loadContext settings fetcher base).Target d) (inline : Bool) :
    Alike IsUnresolved Eq (ofDeclaration settings fetcher base c)
      (ofDeclaration { settings with inlineDefinitions := inline } fetcher base d) :=
  have step : LoadContext.InStep IsUnresolved (c.loadContext settings fetcher base)
      (d.loadContext { settings with inlineDefinitions := inline } fetcher base) _ :=
    LoadContext.inStep_writtenOut hinline rfl rfl rfl
  step.ofDeclaration h.1

/-- What is loaded can be written out. -/
lemma exists_writtenOut (hinline : settings.inlineDefinitions = true)
    (h : ofDeclaration settings fetcher base c = .ok k) :
    ∃ d, c.WrittenOut (c.loadContext settings fetcher base).Target d := by
  have hmodels : ∀ m ∈ c.models, ∃ n, m.2.Matches
      (FieldDeclaration.WrittenOut (c.loadContext settings fetcher base).Target) n := by
    intro m hm
    refine ModelDeclaration.Matches.exists_of_forall fun x hx => ?_
    refine LoadContext.forall_of_ofDeclaration h (P := fun d => ∃ g,
      FieldDeclaration.WrittenOut (c.loadContext settings fetcher base).Target d g) ?_ hm hx
    intro d f hf hparts
    have hfilled := (LoadContext.inlines_iff_filled hinline).1 hf
    exact FieldDeclaration.WrittenOut.exists_of_parts hfilled hparts
  obtain ⟨models, hmodels⟩ := Namewise.exists_of_forall hmodels
  exact ⟨_, .intro hmodels, rfl⟩

/-- **A document with local references that is loaded can be written out in one way, and what was
written out gives the same contract**, with inlining or without. -/
theorem ofDeclaration_writtenOut (hinline : settings.inlineDefinitions = true)
    (hlocal : ∀ d r, (c.loadContext settings fetcher base).ComesUp c d →
      d.keywords.reference = some r → ∃ name, r = "#/definitions/" ++ name)
    (h : ofDeclaration settings fetcher base c = .ok k) :
    (∃! d, c.WrittenOut c.Defines d) ∧
      ∀ d, c.WrittenOut c.Defines d → ∀ inline,
        ofDeclaration { settings with inlineDefinitions := inline } fetcher base d = .ok k := by
  have hdefines : ∀ r t, c.Defines r t → (c.loadContext settings fetcher base).Target r t :=
    fun _ _ => LoadContext.target_of_defines
  have hunique : ∀ r t u, c.Defines r t → c.Defines r u → t = u := fun r t u ht hu =>
    LoadContext.Target.unique r t u (hdefines r t ht) (hdefines r u hu)
  obtain ⟨d, hd⟩ := exists_writtenOut hinline h
  have hown : c.WrittenOut c.Defines d := by
    refine hd.mono_of_comesUp hinline fun e r t he hr ht => ?_
    obtain ⟨name, rfl⟩ := hlocal e r he hr
    exact LoadContext.defines_of_target ht
  refine ⟨⟨d, hown, fun e he => he.unique hunique hown⟩, fun e he inline => ?_⟩
  have htarget : c.WrittenOut (c.loadContext settings fetcher base).Target e :=
    he.mono_of (P := fun _ => True) (fun _ _ _ _ => trivial) (fun _ _ _ _ => trivial)
      fun _ r t _ => hdefines r t
  exact (alike_of_writtenOut hinline htarget inline).eq_ok h

end Contract

/-! ### Definitions in definitions -/

namespace LoadContext

variable {context : LoadContext} {path name word : String} {depth : Nat} {d f : FieldDeclaration}

/-- A field without rules is what its shape says. -/
lemma field_of_shape {s : FieldShape} (hf : context.withDefinition path depth d = .ok f)
    (hs : context.shape path depth f = .ok s) (hquality : f.keywords.quality = none) :
    context.field path depth name d = .ok (s.field (f.keywords.attributes name [])) := by
  rw [field_eq, bind_eq_of_ok hf, bind_eq_of_ok hs, hquality]
  rfl

lemma shape_of_word {t : DataType} (hword : f.typeWord = some word)
    (hobject : isObjectWord word = false) (hitems : f.items = none) (hfields : f.fields = [])
    (ht : DataType.parse? word = some t) :
    context.shape path depth f =
      .ok (.scalar (t.withKeywords f.keywords.scalar) f.keywords.scalar.constraints) := by
  have hnot : f.isObject = false := by
    rw [FieldDeclaration.isObject, hword]
    exact hobject
  have htype : f.dataType path word = .ok (t.withKeywords f.keywords.scalar) := by
    rw [FieldDeclaration.dataType, ht]
  rw [shape_of_scalar hnot fun _ => hitems, hword]
  simp only [scalarShape, hfields, htype]
  rfl

end LoadContext

namespace OrderLines

/-- A field of the lines, by a definition. -/
def sku : FieldDeclaration where
  keywords := { reference := some "#/definitions/sku", required := some true }

/-- The definition of the lines. -/
def line : FieldDeclaration where
  keywords := { type := some "object" }
  fields := [("sku", sku)]

/-- Items by a definition. -/
def items : FieldDeclaration where
  keywords := { reference := some "#/definitions/line" }

/-- An array of such items. -/
def lines : FieldDeclaration where
  keywords := { type := some "array" }
  items := some items

/-- Orders with lines. -/
def declaration : ContractDeclaration where
  models := [("orders", { fields := [("lines", lines)] })]
  definitions := [("line", line), ("sku", .ofType "string" { maxLength := some 12 })]

/-- The field of the lines, written out. -/
def writtenSku : FieldDeclaration where
  keywords := { type := some "string", required := some true, scalar := { maxLength := some 12 } }

/-- The array, written out. -/
def writtenLines : FieldDeclaration where
  keywords := { type := some "array" }
  items := some { keywords := { type := some "object" }, fields := [("sku", writtenSku)] }

/-- Orders with lines that are written out. -/
def byHand : ContractDeclaration where
  models := [("orders", { fields := [("lines", writtenLines)] })]

/-- The contract of both. -/
def contract : Contract :=
  { Contract.named "" "" "" with
    models := [{
      name := "orders"
      fields := [.nested { name := "lines" } .array
        [.scalar { name := "sku", required := true } .string { maxLength := some 12 }]] }] }

/-- What is known while the orders are loaded, without any other document. -/
def context : LoadContext := declaration.loadContext {} (.ofDocuments []) none

open FieldDeclaration (Filled)

lemma filled_sku : Filled declaration.Defines sku writtenSku :=
  have ht : declaration.Defines "#/definitions/sku" (.ofType "string" { maxLength := some 12 }) :=
    ⟨"sku", rfl, rfl⟩
  .refers rfl ht (FieldDeclaration.merges_iff.2 rfl)

lemma filled_items : Filled declaration.Defines items line :=
  have ht : declaration.Defines "#/definitions/line" line := ⟨"line", rfl, rfl⟩
  .refers rfl ht (FieldDeclaration.merges_iff.2 rfl)

lemma filled_lines : Filled declaration.Defines lines lines := .plain rfl

lemma typeWord_lines : lines.typeWord = some "array" := by rfl

lemma isObject_line : line.isObject := by rfl

/-- The orders are written out by hand. -/
lemma writtenOut : declaration.WrittenOut declaration.Defines byHand := by
  have hsku : FieldDeclaration.WrittenOut declaration.Defines sku writtenSku :=
    .fields filled_sku (fun _ => rfl) rfl nofun
  have hfields : Namewise (FieldDeclaration.WrittenOut declaration.Defines) line.fields
      [("sku", writtenSku)] := .cons ⟨rfl, hsku⟩ .nil
  have hlines : FieldDeclaration.WrittenOut declaration.Defines lines writtenLines :=
    .items filled_lines typeWord_lines rfl (.of_namewise filled_items (fun _ => rfl) hfields)
  exact ⟨.intro (.cons ⟨rfl, .intro (.cons ⟨rfl, hlines⟩ .nil)⟩ .nil), rfl⟩

lemma parts_of_hasPart {d f part : FieldDeclaration} (hf : Filled declaration.Defines d f)
    (h : context.HasPart d part) : part ∈ f.parts := by
  obtain ⟨g, hg, hpart⟩ := h
  rw [LoadContext.inlines_iff_filled rfl] at hg
  have hf : Filled context.Target d f := hf.mono fun _ _ _ => LoadContext.target_of_defines
  rw [hf.unique LoadContext.Target.unique hg]
  exact hpart

/-- Three declarations come up: the array, its items, and the field of these. -/
lemma eq_of_comesUp {d : FieldDeclaration} (h : context.ComesUp declaration d) :
    d = lines ∨ d = items ∨ d = sku := by
  obtain ⟨m, hm, x, hx, hd⟩ := h
  cases List.mem_singleton.1 hm
  cases List.mem_singleton.1 hx
  induction hd with
  | refl => exact .inl rfl
  | tail _ hpart ih =>
      rcases ih with rfl | rfl | rfl
      · have := parts_of_hasPart filled_lines hpart
        rw [FieldDeclaration.parts_of_items typeWord_lines rfl] at this
        exact .inr (.inl (List.mem_singleton.1 this))
      · have : _ ∈ [sku] := parts_of_hasPart filled_items hpart
        exact .inr (.inr (List.mem_singleton.1 this))
      · exact absurd (parts_of_hasPart filled_sku hpart) List.not_mem_nil

lemma withDefinition_eq {d f : FieldDeclaration} (hf : Filled declaration.Defines d f)
    {path : String} {depth : Nat} (hdepth : depth < greatestFieldDepth) :
    context.withDefinition path depth d = .ok f :=
  LoadContext.withDefinition_of_filled rfl (hf.mono fun _ _ _ => LoadContext.target_of_defines)
    hdepth

lemma shape_sku (path : String) : context.shape path 1 writtenSku =
    .ok (.scalar .string { maxLength := some 12 }) := by
  have hword : writtenSku.typeWord = some "string" := by rfl
  have hstring : DataType.parse? "string" = some .string := by decide +kernel
  exact LoadContext.shape_of_word hword (by decide) rfl rfl hstring

lemma field_sku (path : String) : context.field path 1 "sku" sku =
    .ok (.scalar { name := "sku", required := true } .string { maxLength := some 12 }) :=
  LoadContext.field_of_shape (withDefinition_eq filled_sku (by decide)) (shape_sku path) rfl

lemma field_lines (path : String) : context.field path 0 "lines" lines =
    .ok (.nested { name := "lines" } .array
      [.scalar { name := "sku", required := true } .string { maxLength := some 12 }]) := by
  have hitems : context.withDefinition (path ++ ".items") (0 + 1) items = .ok line :=
    withDefinition_eq filled_items (by decide)
  have hshape : context.shape path 0 lines = .ok (.nested .array
      [.scalar { name := "sku", required := true } .string { maxLength := some 12 }]) := by
    rw [LoadContext.shape_of_array typeWord_lines rfl, bind_eq_of_ok hitems, if_pos isObject_line,
      if_pos (by rfl), LoadContext.nestedShape_eq rfl]
    change LoadContext.fieldList _ path 1 [("sku", sku)] >>= _ = _
    rw [LoadContext.fieldList_singleton field_sku]
    rfl
  exact LoadContext.field_of_shape rfl hshape rfl

/-- The orders are loaded. -/
lemma ofDeclaration_orders :
    Contract.ofDeclaration {} (.ofDocuments []) none declaration = .ok contract := by
  change (((LoadContext.fieldList context ("models." ++ "orders") 0 [("lines", lines)] >>= _) >>=
    fun m => .ok [m]) >>= _) = _
  rw [LoadContext.fieldList_singleton field_lines]
  rfl

end OrderLines

namespace Contract

open OrderLines in
/-- The orders are written out in one way, and what was written out gives their contract. -/
theorem ofDeclaration_writtenOut_of_order_lines :
    declaration.WrittenOut declaration.Defines byHand ∧
    (∃! d, declaration.WrittenOut declaration.Defines d) ∧
    ofDeclaration {} (.ofDocuments []) none declaration = .ok contract ∧
    ∀ inline, ofDeclaration { inlineDefinitions := inline } (.ofDocuments []) none byHand =
      .ok contract := by
  have hlocal (d : FieldDeclaration) (r : String) (h : context.ComesUp declaration d)
      (hr : d.keywords.reference = some r) : ∃ name, r = "#/definitions/" ++ name := by
    rcases eq_of_comesUp h with rfl | rfl | rfl
    · cases hr
    · cases hr
      exact ⟨"line", rfl⟩
    · cases hr
      exact ⟨"sku", rfl⟩
  obtain ⟨hunique, hload⟩ := ofDeclaration_writtenOut rfl hlocal ofDeclaration_orders
  exact ⟨writtenOut, hunique, ofDeclaration_orders, hload byHand writtenOut⟩

end Contract

end ContractDrift
