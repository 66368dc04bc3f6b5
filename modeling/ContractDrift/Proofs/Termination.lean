import ContractDrift.Proofs.Loaded
import Mathlib.Logic.Relation
import Mathlib.Order.WellFounded

/-!
# Loading ends

Following a reference puts a definition of any size in the place of a small field, and definitions
may contain each other.  Loading ends nevertheless, since below depth 64 no reference is followed
and from there on only what is written out is left.  What never ends when it is unfolded is
therefore refused.

* `LoadContext.Call` — a call of `field` or of `shape`; `Calls` — which calls it makes next;
  `Enters` — which ones if nothing fails before.
* **`LoadContext.wellFounded_calls`** — no chain of calls goes on forever;
  `LoadContext.induction_on_fields` — so what is loaded can be gone through by induction.
* **`LoadContext.error_of_calls`** — a call fails with the error of a call that it makes.
* `LoadContext.Reaches` — the calls that come up while a contract is loaded;
  **`LoadContext.ofDeclaration_eq_error_of_refers`** — one that is too deep for its reference.
* **`LoadContext.forall_of_loaded`** — what follows for a declaration from its parts holds of all
  that is loaded.
* `LoadContext.HasPart` — the fields and items of a declaration when it is unfolded;
  **`LoadContext.ends_of_ofDeclaration`** — in a loaded contract they come to an end.
* **`Contract.ofDeclaration_ends`** — all of this for any settings, fetcher and declaration.
-/

namespace ContractDrift

/-! ## Steps one after the other -/

section Steps

variable {ε α β : Type}

lemma bind_eq_error {x : Except ε α} {f : α → Except ε β} {e : ε} (h : x = .error e) :
    (x >>= f) = .error e := by
  rw [h]
  rfl

lemma bind_eq_of_ok {x : Except ε α} {f : α → Except ε β} {a : α} (h : x = .ok a) :
    (x >>= f) = f a := by
  rw [h]
  rfl

/-- It is the turn of an element of a list: the step succeeds for all that stand before it. -/
def ComesTo (step : α → Except ε β) (l : List α) (a : α) : Prop :=
  ∃ before after, l = before ++ a :: after ∧ ∀ b ∈ before, ∃ c, step b = .ok c

variable {step : α → Except ε β} {l : List α} {a : α}

/-- The first step that fails decides. -/
lemma ComesTo.mapM_eq_error {e : ε} (h : ComesTo step l a) (ha : step a = .error e) :
    l.mapM step = .error e := by
  obtain ⟨before, after, rfl, hbefore⟩ := h
  induction before with
  | nil =>
      rw [List.nil_append, List.mapM_cons]
      exact bind_eq_error ha
  | cons b before ih =>
      obtain ⟨c, hc⟩ := hbefore b List.mem_cons_self
      have hrest := ih fun x hx => hbefore x (List.mem_cons_of_mem b hx)
      rw [List.cons_append, List.mapM_cons, bind_eq_of_ok hc]
      exact bind_eq_error hrest

lemma exists_ok_of_mapM_eq_ok {m : List β} (h : l.mapM step = .ok m) (ha : a ∈ l) :
    ∃ b, step a = .ok b := by
  obtain ⟨b, _, hb⟩ := exists_left_of_forall₂ (forall₂_of_mapM_eq_ok h).flip ha
  exact ⟨b, hb⟩

lemma exists_mapM_eq_ok : ∀ {l : List α}, (∀ a ∈ l, ∃ b, step a = .ok b) →
    ∃ m, l.mapM step = .ok m
  | [], _ => ⟨[], rfl⟩
  | a :: l, h => by
      obtain ⟨b, hb⟩ := h a List.mem_cons_self
      obtain ⟨m, hm⟩ := exists_mapM_eq_ok fun x hx => h x (List.mem_cons_of_mem a hx)
      rw [List.mapM_cons, bind_eq_of_ok hb, bind_eq_of_ok hm]
      exact ⟨b :: m, rfl⟩

end Steps

namespace LoadContext

variable {context : LoadContext}

/-! ## Following references -/

/-- The path of a reference only matters for the error. -/
lemma definition_eq_ok {path other r : String} {d : FieldDeclaration}
    (h : context.definition path r = .ok d) : context.definition other r = .ok d := by
  unfold definition at h ⊢
  cases hr : Reference.ofText r with
  | own name => grind
  | dangling => grind
  | external location steps =>
      simp only [hr] at h ⊢
      obtain ⟨text, htext, h⟩ := bind_eq_ok_iff.1 h
      rw [bind_eq_of_ok htext]
      grind

lemma withDefinition_eq_error {path r : String} {depth : Nat} {d : FieldDeclaration}
    (hr : d.keywords.reference = some r) (hdepth : greatestFieldDepth ≤ depth) :
    context.withDefinition path depth d = .error (.unresolvedReference path r) := by
  rw [withDefinition, hr]
  exact if_pos hdepth

/-- A declaration that is unfolded at some place is unfolded alike at any place that is not too
deep. -/
lemma withDefinition_eq_ok {path other : String} {depth : Nat} {d e : FieldDeclaration}
    (h : context.withDefinition path depth d = .ok e) :
    context.withDefinition other 0 d = .ok e := by
  unfold withDefinition at h ⊢
  cases hr : d.keywords.reference with
  | none =>
      rw [hr] at h
      exact h
  | some r =>
      simp only [hr] at h ⊢
      split at h
      · cases h
      · rw [if_neg (by decide)]
        split at h
        · rename_i hinline
          obtain ⟨t, ht, h⟩ := bind_eq_ok_iff.1 h
          rw [if_pos hinline, bind_eq_of_ok (definition_eq_ok ht)]
          exact h
        · rename_i hinline
          rw [if_neg hinline]
          exact h

/-- A declaration and what it is unfolded to, at some place of a document. -/
def Inlines (context : LoadContext) (d e : FieldDeclaration) : Prop :=
  ∃ path, context.withDefinition path 0 d = .ok e

lemma inlines_of_withDefinition {path : String} {depth : Nat} {d e : FieldDeclaration}
    (h : context.withDefinition path depth d = .ok e) : context.Inlines d e :=
  ⟨path, withDefinition_eq_ok h⟩

lemma Inlines.unique {d e e' : FieldDeclaration} (h : context.Inlines d e)
    (h' : context.Inlines d e') : e = e' := by
  obtain ⟨path, h⟩ := h
  obtain ⟨other, h'⟩ := h'
  rw [withDefinition_eq_ok h] at h'
  cases h'
  rfl

end LoadContext

/-! ## The functions that load fields -/

/-- The path of a field inside of a part. -/
def memberPath (parent name : String) : String := parent ++ ".fields" ++ "." ++ name

namespace LoadContext

variable {context : LoadContext} {path : String} {depth : Nat} {f items declared : FieldDeclaration}

lemma fieldList_eq {fields : List (String × FieldDeclaration)} :
    context.fieldList path depth fields =
      (checkUnique (path ++ ".fields") "field" (fields.map Prod.fst) >>= fun _ =>
        fields.mapM fun e => context.field (memberPath path e.1) depth e.1 e.2) := by
  rw [fieldList]
  congr
  funext _
  simp only [List.mapM_subtype, List.unattach_attach]
  rfl

lemma nestedShape_eq {container : Container} {keywords : ScalarKeywords}
    {fields : List (String × FieldDeclaration)} (hkeywords : keywords.isEmpty) :
    context.nestedShape path depth container keywords fields =
      (context.fieldList path (depth + 1) fields >>= fun fs => .ok (.nested container fs)) := by
  rw [nestedShape, hkeywords]
  rfl

lemma nestedShape_eq_error {container : Container} {keywords : ScalarKeywords}
    {fields : List (String × FieldDeclaration)} (hkeywords : keywords.isEmpty = false) :
    context.nestedShape path depth container keywords fields =
      .error (.conflictingShape path .keywordsOfNested) := by
  simp [nestedShape, hkeywords]

/-- What becomes of fields inside. -/
lemma nestedShape_eq_ok_iff {container : Container} {keywords : ScalarKeywords}
    {fields : List (String × FieldDeclaration)} {s : FieldShape} :
    context.nestedShape path depth container keywords fields = .ok s ↔
      keywords.isEmpty ∧ ∃ fs, context.fieldList path (depth + 1) fields = .ok fs ∧
        s = .nested container fs := by
  cases hkeywords : keywords.isEmpty with
  | false => simp [nestedShape_eq_error hkeywords]
  | true =>
      rw [nestedShape_eq hkeywords, bind_eq_ok_iff]
      simp [eq_comm]

lemma shape_of_isObject (h : f.isObject) :
    context.shape path depth f =
      context.nestedShape path depth .object f.keywords.scalar f.fields := by
  rw [shape]
  unfold FieldDeclaration.isObject at h
  cases hword : f.typeWord with
  | none => grind
  | some word => grind

/-- What becomes of an array with items. -/
lemma shape_of_array (hword : f.typeWord = some "array") (hitems : f.items = some declared) :
    context.shape path depth f =
      (context.withDefinition (path ++ ".items") (depth + 1) declared >>= fun items =>
        if items.isObject then
          if f.fields.isEmpty then
            context.nestedShape path depth .array f.keywords.scalar items.fields
          else .error (.conflictingShape path .fieldsBesideItems)
        else (do
          match ← context.shape (path ++ ".items") (depth + 1) items with
          | .scalar type _ => .ok (.scalar (.arrayOf type) f.keywords.scalar.constraints)
          | .nested .. => .error (.conflictingShape (path ++ ".items") .nestedItems))) := by
  have harray : isObjectWord "array" = false := by decide
  rw [shape]
  cases h : context.withDefinition (path ++ ".items") (depth + 1) declared with
  | error e => grind [bind_eq_error]
  | ok items => grind [bind_eq_of_ok]

/-- What becomes of all else, which has nothing inside. -/
lemma shape_of_scalar (hobject : f.isObject = false)
    (hitems : f.typeWord = some "array" → f.items = none) :
    context.shape path depth f =
      match f.typeWord with
      | some word => scalarShape path word f
      | none => .error (.missingType path) := by
  rw [shape]
  unfold FieldDeclaration.isObject at hobject
  cases hword : f.typeWord with
  | none => grind
  | some word => grind

lemma field_eq {name : String} :
    context.field path depth name declared =
      (context.withDefinition path depth declared >>= fun f =>
        context.shape path depth f >>= fun shape =>
          context.rules (path ++ ".quality") f.keywords.quality >>= fun quality =>
            .ok (shape.field (f.keywords.attributes name quality))) := by
  rw [field]
  cases context.withDefinition path depth declared <;> rfl

/-! ## Chains of calls -/

/-- A call of `field`, or of `shape` for a declaration whose reference was followed. -/
inductive Call where
  | field (path : String) (depth : Nat) (name : String) (declared : FieldDeclaration)
  | shape (path : String) (depth : Nat) (f : FieldDeclaration)

namespace Call

/-- The call fails with an error. -/
def Fails (context : LoadContext) (e : LoadError) : Call → Prop
  | .field path depth name declared => context.field path depth name declared = .error e
  | .shape path depth f => context.shape path depth f = .error e

/-- The call follows a reference at a path and a depth: that of its field, or that of its items. -/
inductive Refers : Call → String → Nat → String → Prop where
  | field {path depth name declared r} (h : declared.keywords.reference = some r) :
      Refers (.field path depth name declared) path depth r
  | items {path depth f declared r} (hword : f.typeWord = some "array")
      (hitems : f.items = some declared) (h : declared.keywords.reference = some r) :
      Refers (.shape path depth f) (path ++ ".items") (depth + 1) r

end Call

/-- Names do not repeat in a list of fields, and it is the turn of one of them. -/
structure ComesToField (context : LoadContext) (parent : String) (depth : Nat)
    (fields : List (String × FieldDeclaration)) (name : String) (declared : FieldDeclaration) :
    Prop where
  names : (fields.map Prod.fst).Nodup
  turn : ComesTo (fun e => context.field (memberPath parent e.1) depth e.1 e.2) fields
    (name, declared)

/-- A call makes the other one: what is checked before that held, and what is called before that
succeeded.  The fields of an object stand one deeper than the object, and so do the items of an
array; the fields of items that are objects stand as deep as the items. -/
inductive Calls (context : LoadContext) : Call → Call → Prop where
  | shape {path depth name declared f}
      (h : context.withDefinition path depth declared = .ok f) :
      Calls context (.field path depth name declared) (.shape path depth f)
  | member {path depth f name declared} (hobject : f.isObject)
      (hkeywords : f.keywords.scalar.isEmpty)
      (h : context.ComesToField path (depth + 1) f.fields name declared) :
      Calls context (.shape path depth f)
        (.field (memberPath path name) (depth + 1) name declared)
  | memberOfItems {path depth f i items name declared} (hword : f.typeWord = some "array")
      (hitems : f.items = some i)
      (hinlined : context.withDefinition (path ++ ".items") (depth + 1) i = .ok items)
      (hobject : items.isObject) (hfields : f.fields.isEmpty)
      (hkeywords : f.keywords.scalar.isEmpty)
      (h : context.ComesToField path (depth + 1) items.fields name declared) :
      Calls context (.shape path depth f)
        (.field (memberPath path name) (depth + 1) name declared)
  | items {path depth f i items} (hword : f.typeWord = some "array") (hitems : f.items = some i)
      (hinlined : context.withDefinition (path ++ ".items") (depth + 1) i = .ok items)
      (hobject : items.isObject = false) :
      Calls context (.shape path depth f) (.shape (path ++ ".items") (depth + 1) items)

/-- A call comes to the other one if nothing fails before. -/
inductive Enters (context : LoadContext) : Call → Call → Prop where
  | shape {path depth name declared f}
      (h : context.withDefinition path depth declared = .ok f) :
      Enters context (.field path depth name declared) (.shape path depth f)
  | member {path depth f name declared} (h : (name, declared) ∈ f.fields) :
      Enters context (.shape path depth f)
        (.field (memberPath path name) (depth + 1) name declared)
  | memberOfItems {path depth f i items name declared} (hitems : f.items = some i)
      (hinlined : context.withDefinition (path ++ ".items") (depth + 1) i = .ok items)
      (h : (name, declared) ∈ items.fields) :
      Enters context (.shape path depth f)
        (.field (memberPath path name) (depth + 1) name declared)
  | items {path depth f i items} (hitems : f.items = some i)
      (hinlined : context.withDefinition (path ++ ".items") (depth + 1) i = .ok items) :
      Enters context (.shape path depth f) (.shape (path ++ ".items") (depth + 1) items)

lemma ComesToField.mem {fields : List (String × FieldDeclaration)} {name : String}
    (h : context.ComesToField path depth fields name declared) : (name, declared) ∈ fields := by
  obtain ⟨before, after, hfields, _⟩ := h.turn
  simp [hfields]

lemma enters_of_calls {c c' : Call} (h : context.Calls c c') : context.Enters c c' := by
  cases h with
  | shape h => exact .shape h
  | member _ _ h => exact .member h.mem
  | memberOfItems _ hitems hinlined _ _ _ h => exact .memberOfItems hitems hinlined h.mem
  | items _ hitems hinlined _ => exact .items hitems hinlined

/-- What a call has left to do: how far the greatest depth is away, from there on the size of the
declaration, and at last that a shape follows on its field. -/
noncomputable def Call.remaining : Call → Nat × Nat × Nat
  | .field _ depth _ declared =>
    (greatestFieldDepth - depth, LoadContext.remaining depth (sizeOf declared), 2)
  | .shape _ depth f => (greatestFieldDepth - depth, LoadContext.remaining depth (sizeOf f), 1)

lemma sizeOf_lt_of_mem_fields {fields : List (String × FieldDeclaration)} {name : String}
    (h : (name, declared) ∈ fields) : sizeOf declared < sizeOf fields := by
  have := List.sizeOf_lt_of_mem h
  simp only [Prod.mk.sizeOf_spec] at this
  omega

/-- Where a definition of any size comes in, the greatest depth is not reached yet. -/
lemma lt_or_eq_of_withDefinition (h : context.withDefinition path depth declared = .ok f) :
    depth < greatestFieldDepth ∨ f = declared :=
  (Nat.lt_or_ge depth greatestFieldDepth).imp_right fun hdepth => eq_of_withDefinition hdepth h

/-- **Each call leaves less to do.** -/
theorem remaining_lt_of_enters {c c' : Call} (h : context.Enters c c') :
    Prod.Lex (· < ·) (Prod.Lex (· < ·) (· < ·)) c'.remaining c.remaining := by
  cases h with
  | @shape _ depth _ declared f h =>
      rcases lt_or_eq_of_withDefinition h with hdepth | rfl
      · exact remaining_lex (by omega)
      · exact remaining_lex (by omega)
  | @member _ depth f name declared h =>
      have := sizeOf_lt_of_mem_fields h
      have := sizeOf_fields_lt f
      exact remaining_lex (by omega)
  | @memberOfItems _ depth f i items name declared hitems hinlined h =>
      have := sizeOf_lt_of_mem_fields h
      have := sizeOf_fields_lt items
      have := sizeOf_items_lt hitems
      rcases lt_or_eq_of_withDefinition hinlined with hdepth | rfl
      · exact remaining_lex (by omega)
      · exact remaining_lex (by omega)
  | @items _ depth f i items hitems hinlined =>
      have := sizeOf_items_lt hitems
      rcases lt_or_eq_of_withDefinition hinlined with hdepth | rfl
      · exact remaining_lex (by omega)
      · exact remaining_lex (by omega)

lemma wellFounded_enters (context : LoadContext) :
    WellFounded fun callee caller => context.Enters caller callee :=
  Subrelation.wf (fun h => remaining_lt_of_enters h)
    (InvImage.wf Call.remaining
      (Prod.lex Nat.lt_wfRel (Prod.lex Nat.lt_wfRel Nat.lt_wfRel)).wf)

/-- **No chain of calls goes on forever**, whatever the definitions contain. -/
theorem wellFounded_calls (context : LoadContext) :
    WellFounded fun callee caller => context.Calls caller callee :=
  Subrelation.wf enters_of_calls (wellFounded_enters context)

/-- The induction over fields and shapes: a field comes after its shape, and a shape after the
fields and the items inside of it. -/
lemma induction_on_fields (context : LoadContext)
    {P : String → Nat → String → FieldDeclaration → Prop}
    {Q : String → Nat → FieldDeclaration → Prop}
    (hfield : ∀ path depth name declared,
      (∀ f, context.withDefinition path depth declared = .ok f → Q path depth f) →
      P path depth name declared)
    (hshape : ∀ path depth f,
      (∀ x ∈ f.fields, P (memberPath path x.1) (depth + 1) x.1 x.2) →
      (∀ i items, f.items = some i →
        context.withDefinition (path ++ ".items") (depth + 1) i = .ok items →
        (∀ x ∈ items.fields, P (memberPath path x.1) (depth + 1) x.1 x.2) ∧
          Q (path ++ ".items") (depth + 1) items) →
      Q path depth f) :
    (∀ path depth name declared, P path depth name declared) ∧
      ∀ path depth f, Q path depth f := by
  let holds : Call → Prop
    | .field path depth name declared => P path depth name declared
    | .shape path depth f => Q path depth f
  have hall (c : Call) : holds c := by
    induction c using (wellFounded_enters context).induction with
    | _ c ih =>
      cases c with
      | field path depth name declared =>
          exact hfield path depth name declared fun f hf => ih (.shape path depth f) (.shape hf)
      | shape path depth f =>
          refine hshape path depth f (fun x hx => ih (.field _ _ x.1 x.2) (.member hx)) ?_
          exact fun i items hitems hinlined =>
            ⟨fun x hx => ih (.field _ _ x.1 x.2) (.memberOfItems hitems hinlined hx),
              ih (.shape _ _ items) (.items hitems hinlined)⟩
  exact ⟨fun path depth name declared => hall (.field path depth name declared),
    fun path depth f => hall (.shape path depth f)⟩

/-! ## Errors come out -/

lemma ComesToField.fieldList_eq_error {parent name : String}
    {fields : List (String × FieldDeclaration)} {e : LoadError}
    (h : context.ComesToField parent depth fields name declared)
    (he : context.field (memberPath parent name) depth name declared = .error e) :
    context.fieldList parent depth fields = .error e := by
  rw [fieldList_eq, bind_eq_of_ok (a := ()) (checkUnique_eq_ok_iff.2 h.names)]
  exact h.turn.mapM_eq_error he

/-- **A call fails with the error of a call that it makes.** -/
theorem error_of_calls {c c' : Call} {e : LoadError} (h : context.Calls c c')
    (he : c'.Fails context e) : c.Fails context e := by
  cases h with
  | shape h =>
      change context.field _ _ _ _ = _
      rw [field, h]
      exact bind_eq_error he
  | member hobject hkeywords h =>
      change context.shape _ _ _ = _
      rw [shape_of_isObject hobject, nestedShape_eq hkeywords]
      exact bind_eq_error (h.fieldList_eq_error he)
  | memberOfItems hword hitems hinlined hobject hfields hkeywords h =>
      change context.shape _ _ _ = _
      rw [shape_of_array hword hitems, bind_eq_of_ok hinlined, if_pos hobject, if_pos hfields,
        nestedShape_eq hkeywords]
      exact bind_eq_error (h.fieldList_eq_error he)
  | items hword hitems hinlined hobject =>
      change context.shape _ _ _ = _
      rw [shape_of_array hword hitems, bind_eq_of_ok hinlined, if_neg (by simp [hobject])]
      exact bind_eq_error he

/-- A call fails with the error of a call at the end of a chain. -/
lemma error_of_reflTransGen {c c' : Call} {e : LoadError}
    (h : Relation.ReflTransGen context.Calls c c') (he : c'.Fails context e) :
    c.Fails context e := by
  induction h using Relation.ReflTransGen.head_induction_on with
  | refl => exact he
  | head hcalls _ ih => exact error_of_calls hcalls ih

/-- From the greatest depth on a call that follows a reference fails. -/
lemma fails_of_refers {c : Call} {r : String} (h : c.Refers path depth r)
    (hdepth : greatestFieldDepth ≤ depth) : c.Fails context (.unresolvedReference path r) := by
  cases h with
  | field h =>
      change context.field _ _ _ _ = _
      rw [field, withDefinition_eq_error h hdepth]
  | items hword hitems h =>
      change context.shape _ _ _ = _
      rw [shape_of_array hword hitems]
      exact bind_eq_error (withDefinition_eq_error h hdepth)

end LoadContext

/-- What is known while the contract of a declaration is loaded. -/
def ContractDeclaration.loadContext (c : ContractDeclaration) (settings : LoaderSettings)
    (fetcher : Fetcher) (base : Option String) : LoadContext :=
  { settings, fetcher, base, definitions := c.definitions }

namespace LoadContext

variable {context : LoadContext} {c : ContractDeclaration}

/-- The loader comes to a field of a model. -/
inductive Starts (context : LoadContext) (c : ContractDeclaration) : Call → Prop where
  | field {model m name declared} (hservers : (c.servers.map Prod.fst).Nodup)
      (hmodels : (c.models.map Prod.fst).Nodup)
      (loaded : ∀ e ∈ c.servers, ∃ s, e.2.toServer e.1 = .ok s)
      (turn : ComesTo (fun e => context.model e.1 e.2) c.models (model, m))
      (h : context.ComesToField ("models." ++ model) 0 m.fields name declared) :
      Starts context c (.field (memberPath ("models." ++ model) name) 0 name declared)

/-- The call comes up while the contract of a declaration is loaded. -/
def Reaches (context : LoadContext) (c : ContractDeclaration) (call : Call) : Prop :=
  ∃ start, context.Starts c start ∧ Relation.ReflTransGen context.Calls start call

variable {settings : LoaderSettings} {fetcher : Fetcher} {base : Option String} {call : Call}

/-- **What a call that comes up fails with is what the loader reports.** -/
theorem ofDeclaration_eq_error_of_fails {e : LoadError}
    (h : (c.loadContext settings fetcher base).Reaches c call)
    (he : call.Fails (c.loadContext settings fetcher base) e) :
    Contract.ofDeclaration settings fetcher base c = .error e := by
  obtain ⟨start, hstart, hcalls⟩ := h
  have hfails := error_of_reflTransGen hcalls he
  cases hstart with
  | @field model m name declared hservers hmodels loaded turn h =>
      have hmodel : (c.loadContext settings fetcher base).model model m = .error e := by
        rw [LoadContext.model]
        exact bind_eq_error (h.fieldList_eq_error hfails)
      obtain ⟨servers, hs⟩ := exists_mapM_eq_ok loaded
      rw [Contract.ofDeclaration, bind_eq_of_ok (a := ()) (checkUnique_eq_ok_iff.2 hservers),
        bind_eq_of_ok (a := ()) (checkUnique_eq_ok_iff.2 hmodels), bind_eq_of_ok hs]
      exact bind_eq_error (turn.mapM_eq_error hmodel)

/-- **A call that is too deep for its reference is what the loader reports.** -/
theorem ofDeclaration_eq_error_of_refers {r : String}
    (h : (c.loadContext settings fetcher base).Reaches c call) (hr : call.Refers path depth r)
    (hdepth : greatestFieldDepth ≤ depth) :
    Contract.ofDeclaration settings fetcher base c = .error (.unresolvedReference path r) :=
  ofDeclaration_eq_error_of_fails h (fails_of_refers hr hdepth)

end LoadContext

/-! ## What never ends is refused -/

/-- The fields or the items that are loaded with a declaration whose reference was followed.  Items
are those of an array; where they are not objects, nothing looks at fields beside them. -/
def FieldDeclaration.parts (f : FieldDeclaration) : List FieldDeclaration :=
  match f.items with
  | some items => if f.typeWord = some "array" then [items] else f.fields.map Prod.snd
  | none => f.fields.map Prod.snd

lemma FieldDeclaration.parts_of_items {f items : FieldDeclaration}
    (hword : f.typeWord = some "array") (hitems : f.items = some items) : f.parts = [items] := by
  simp [parts, hitems, hword]

lemma FieldDeclaration.parts_of_not_array {f : FieldDeclaration}
    (h : f.typeWord = some "array" → f.items = none) : f.parts = f.fields.map Prod.snd := by
  unfold parts
  grind

lemma FieldDeclaration.array_or_not (f : FieldDeclaration) :
    (∃ i, f.typeWord = some "array" ∧ f.items = some i) ∨
      (f.typeWord = some "array" → f.items = none) := by
  cases f.items with
  | none => exact .inr fun _ => rfl
  | some i => by_cases hword : f.typeWord = some "array" <;> simp [hword]

lemma FieldDeclaration.not_array_of_isObject {f : FieldDeclaration} (h : f.isObject) :
    f.typeWord ≠ some "array" := by
  intro hword
  rw [isObject, hword] at h
  exact absurd (show isObjectWord "array" from h) (by decide)

lemma FieldDeclaration.parts_of_isObject {f : FieldDeclaration} (h : f.isObject) :
    f.parts = f.fields.map Prod.snd :=
  parts_of_not_array fun hword => absurd hword (not_array_of_isObject h)

namespace LoadContext

variable {context : LoadContext} {path : String} {depth : Nat} {f items declared : FieldDeclaration}

/-- When the declaration is unfolded the other one is a field or the items of it. -/
def HasPart (context : LoadContext) (declared part : FieldDeclaration) : Prop :=
  ∃ f, context.Inlines declared f ∧ part ∈ f.parts

/-- The parts of a declaration, their parts and so on come to an end. -/
def Ends (context : LoadContext) (declared : FieldDeclaration) : Prop :=
  Acc (fun part whole => context.HasPart whole part) declared

lemma ends_of_inlines (h : context.Inlines declared f)
    (hparts : ∀ part ∈ f.parts, context.Ends part) : context.Ends declared := by
  constructor
  rintro part ⟨g, hg, hpart⟩
  cases h.unique hg
  exact hparts part hpart

lemma exists_field_of_fieldList {parent : String} {fields : List (String × FieldDeclaration)}
    {fs : List Field} (h : context.fieldList parent depth fields = .ok fs)
    {x : String × FieldDeclaration} (hx : x ∈ fields) :
    ∃ f, context.field (memberPath parent x.1) depth x.1 x.2 = .ok f := by
  rw [fieldList_eq] at h
  obtain ⟨_, _, h⟩ := bind_eq_ok_iff.1 h
  exact exists_ok_of_mapM_eq_ok (a := x) h hx

lemma exists_field_of_nestedShape {container : Container} {keywords : ScalarKeywords}
    {fields : List (String × FieldDeclaration)} {s : FieldShape}
    (h : context.nestedShape path depth container keywords fields = .ok s)
    {x : String × FieldDeclaration} (hx : x ∈ fields) :
    ∃ f, context.field (memberPath path x.1) (depth + 1) x.1 x.2 = .ok f := by
  obtain ⟨_, fs, hfs, _⟩ := nestedShape_eq_ok_iff.1 h
  exact exists_field_of_fieldList hfs hx

/-- A shape that is neither an object nor an array with items is a scalar without parts. -/
lemma parts_eq_nil_of_shape {s : FieldShape} (h : context.shape path depth f = .ok s)
    (hobject : f.isObject = false) (hitems : f.typeWord = some "array" → f.items = none) :
    f.parts = [] := by
  have hfields : f.fields = [] := by
    rw [shape_of_scalar hobject hitems] at h
    grind [scalarShape]
  rw [FieldDeclaration.parts_of_not_array hitems, hfields]
  rfl

/-- **What follows for a declaration from its parts holds of all that is loaded.** -/
theorem forall_of_loaded {P : FieldDeclaration → Prop}
    (hP : ∀ {d f}, context.Inlines d f → (∀ part ∈ f.parts, P part) → P d) :
    (∀ path depth name d, (∃ x, context.field path depth name d = .ok x) → P d) ∧
      ∀ path depth f, (∃ s, context.shape path depth f = .ok s) → ∀ part ∈ f.parts, P part := by
  refine induction_on_fields context ?_ ?_
  · rintro path depth name d ih ⟨x, hx⟩
    rw [field_eq] at hx
    obtain ⟨f, hf, hx⟩ := bind_eq_ok_iff.1 hx
    obtain ⟨s, hs, _⟩ := bind_eq_ok_iff.1 hx
    exact hP (inlines_of_withDefinition hf) (ih f hf ⟨s, hs⟩)
  · rintro path depth f members inner ⟨s, hs⟩
    have hmembers {fields : List (String × FieldDeclaration)} {container : Container}
        (ih : ∀ x ∈ fields,
          (∃ g, context.field (memberPath path x.1) (depth + 1) x.1 x.2 = .ok g) → P x.2)
        (hs : context.nestedShape path depth container f.keywords.scalar fields = .ok s) :
        ∀ part ∈ fields.map Prod.snd, P part := by
      intro part hpart
      obtain ⟨x, hx, rfl⟩ := List.mem_map.1 hpart
      exact ih x hx (exists_field_of_nestedShape hs hx)
    cases hobject : f.isObject with
    | true =>
        rw [shape_of_isObject hobject] at hs
        rw [FieldDeclaration.parts_of_isObject hobject]
        exact hmembers members hs
    | false =>
        rcases f.array_or_not with ⟨i, hword, hitems⟩ | hnone
        · rw [shape_of_array hword hitems] at hs
          obtain ⟨items, hinlined, hs⟩ := bind_eq_ok_iff.1 hs
          obtain ⟨itemMembers, itemShape⟩ := inner i items hitems hinlined
          rw [FieldDeclaration.parts_of_items hword hitems]
          rintro part hpart
          cases List.mem_singleton.1 hpart
          refine hP (inlines_of_withDefinition hinlined) ?_
          cases hitem : items.isObject with
          | true =>
              rw [if_pos hitem] at hs
              split at hs
              · rw [FieldDeclaration.parts_of_isObject hitem]
                exact hmembers itemMembers hs
              · cases hs
          | false =>
              rw [if_neg (by simp [hitem])] at hs
              obtain ⟨t, ht, _⟩ := bind_eq_ok_iff.1 hs
              exact itemShape ⟨t, ht⟩
        · rw [parts_eq_nil_of_shape hs hobject hnone]
          exact fun part hpart => absurd hpart List.not_mem_nil

/-- What follows for a declaration from its parts holds of the fields of a loaded contract. -/
lemma forall_of_ofDeclaration {settings : LoaderSettings} {fetcher : Fetcher}
    {base : Option String} {c : ContractDeclaration} {k : Contract}
    (h : Contract.ofDeclaration settings fetcher base c = .ok k) {P : FieldDeclaration → Prop}
    (hP : ∀ {d f}, (c.loadContext settings fetcher base).Inlines d f →
      (∀ part ∈ f.parts, P part) → P d)
    {e : String × ModelDeclaration} (he : e ∈ c.models) {x : String × FieldDeclaration}
    (hx : x ∈ e.2.fields) : P x.2 := by
  obtain ⟨m, _, hm⟩ :=
    exists_left_of_forall₂ (Contract.contractFrom_of_ofDeclaration h).models.flip he
  obtain ⟨path, depth, hfields⟩ := hm.fields
  exact (forall_of_loaded hP).1 _ _ _ _ (exists_field_of_fieldList hfields hx)

/-- **In a loaded contract the parts of each field come to an end.** -/
theorem ends_of_ofDeclaration {settings : LoaderSettings} {fetcher : Fetcher}
    {base : Option String} {c : ContractDeclaration} {k : Contract}
    (h : Contract.ofDeclaration settings fetcher base c = .ok k)
    {e : String × ModelDeclaration} (he : e ∈ c.models) {x : String × FieldDeclaration}
    (hx : x ∈ e.2.fields) : (c.loadContext settings fetcher base).Ends x.2 :=
  forall_of_ofDeclaration h ends_of_inlines he hx

/-- A declaration with an endless chain of parts does not end. -/
lemma not_ends_of_chain {chain : Nat → FieldDeclaration}
    (h : ∀ k, context.HasPart (chain k) (chain (k + 1))) : ¬ context.Ends (chain 0) :=
  not_acc_iff_exists_descending_chain.2 ⟨chain, rfl, h⟩

/-- A declaration does not end either if it leads to one that leads to itself. -/
lemma not_ends_of_cycle {x : FieldDeclaration}
    (hx : Relation.ReflTransGen context.HasPart declared x)
    (hcycle : Relation.TransGen context.HasPart x x) : ¬ context.Ends declared := by
  intro hends
  induction hends with
  | intro declared _ ih =>
      -- The way to `x` can be made longer by the cycle, so it has a first step.
      obtain ⟨part, hpart, hrest⟩ :=
        Relation.TransGen.head'_iff.1 (Relation.TransGen.trans_right hx hcycle)
      exact ih part hpart hrest

end LoadContext

namespace Contract

/-- **Loading ends.**  For all settings, fetchers, locations and declarations, no chain of calls
goes on forever, and there is a contract or an error.  Where a call comes up that is too deep for
its reference, that is the error; and where a field of a model leads to parts without end, or to a
part that leads to itself, there is an error. -/
theorem ofDeclaration_ends (settings : LoaderSettings) (fetcher : Fetcher) (base : Option String)
    (c : ContractDeclaration) :
    (WellFounded fun callee caller =>
      (c.loadContext settings fetcher base).Calls caller callee) ∧
    ((∃ k, ofDeclaration settings fetcher base c = .ok k) ∨
      ∃ e, ofDeclaration settings fetcher base c = .error e) ∧
    (∀ call path depth r, (c.loadContext settings fetcher base).Reaches c call →
      call.Refers path depth r → greatestFieldDepth ≤ depth →
      ofDeclaration settings fetcher base c = .error (.unresolvedReference path r)) ∧
    ∀ m ∈ c.models, ∀ f ∈ m.2.fields,
      ((∃ chain : Nat → FieldDeclaration, chain 0 = f.2 ∧
        ∀ k, (c.loadContext settings fetcher base).HasPart (chain k) (chain (k + 1))) ∨
      (∃ x, Relation.ReflTransGen (c.loadContext settings fetcher base).HasPart f.2 x ∧
        Relation.TransGen (c.loadContext settings fetcher base).HasPart x x)) →
      ∃ e, ofDeclaration settings fetcher base c = .error e := by
  have total : (∃ k, ofDeclaration settings fetcher base c = .ok k) ∨
      ∃ e, ofDeclaration settings fetcher base c = .error e := by
    cases ofDeclaration settings fetcher base c with
    | ok k => exact .inl ⟨k, rfl⟩
    | error e => exact .inr ⟨e, rfl⟩
  refine ⟨LoadContext.wellFounded_calls _, total, ?_, ?_⟩
  · intro call path depth r hreaches hrefers hdepth
    exact LoadContext.ofDeclaration_eq_error_of_refers hreaches hrefers hdepth
  · intro m hm f hf hendless
    refine total.resolve_left ?_
    rintro ⟨k, hk⟩
    have hends := LoadContext.ends_of_ofDeclaration hk hm hf
    rcases hendless with ⟨chain, hchain, hparts⟩ | ⟨x, hx, hcycle⟩
    · exact LoadContext.not_ends_of_chain hparts (hchain ▸ hends)
    · exact LoadContext.not_ends_of_cycle hx hcycle hends

end Contract

/-! ### A definition that contains itself -/

namespace TreeDefinition

/-- A field that is a tree. -/
def tree : FieldDeclaration where
  keywords := { reference := some "#/definitions/Tree" }

/-- The definition of a tree: an object with a tree inside. -/
def definition : FieldDeclaration where
  keywords := { type := some "object" }
  fields := [("child", tree)]

/-- A model with a tree. -/
def declaration : ContractDeclaration where
  models := [("forest", { fields := [("root", tree)] })]
  definitions := [("Tree", definition)]

/-- What is known while the model is loaded, without any other document. -/
def context : LoadContext := declaration.loadContext {} (.ofDocuments []) none

/-- The name of the tree at a depth. -/
def name : Nat → String
  | 0 => "root"
  | _ + 1 => "child"

/-- The path of the tree at a depth. -/
def path : Nat → String
  | 0 => memberPath ("models." ++ "forest") "root"
  | depth + 1 => memberPath (path depth) "child"

lemma withDefinition_tree {place : String} {depth : Nat} (h : depth < greatestFieldDepth) :
    context.withDefinition place depth tree = .ok definition := by
  have hreference : Reference.ofText "#/definitions/Tree" = .own "Tree" := by rfl
  have hdefinition : context.definition place "#/definitions/Tree" = .ok definition := by
    rw [LoadContext.definition, hreference]
    rfl
  change (if greatestFieldDepth ≤ depth then _ else
    (context.definition place "#/definitions/Tree" >>= fun d =>
      .ok (tree.withoutReference.inherit d))) = _
  rw [if_neg (Nat.not_le.2 h), hdefinition]
  rfl

lemma hasPart_tree : context.HasPart tree tree :=
  ⟨definition, ⟨"", withDefinition_tree (by decide)⟩, List.mem_singleton_self _⟩

lemma comesToField_tree {parent name : String} {depth : Nat} :
    context.ComesToField parent depth [(name, tree)] name tree :=
  ⟨List.nodup_singleton _, [], [], rfl, fun _ h => absurd h List.not_mem_nil⟩

/-- The loader gets to the trees up to the greatest depth. -/
lemma reaches_tree : ∀ depth ≤ greatestFieldDepth,
    context.Reaches declaration (.field (path depth) depth (name depth) tree)
  | 0, _ => by
      have hstart : context.Starts declaration (.field (path 0) 0 (name 0) tree) :=
        .field List.nodup_nil (List.nodup_singleton _) (fun _ h => absurd h List.not_mem_nil)
          ⟨[], [], rfl, fun _ h => absurd h List.not_mem_nil⟩ comesToField_tree
      exact ⟨_, hstart, .refl⟩
  | depth + 1, h => by
      obtain ⟨start, hstart, hcalls⟩ := reaches_tree depth (Nat.le_of_succ_le h)
      have hshape : context.Calls (.field (path depth) depth (name depth) tree)
          (.shape (path depth) depth definition) := .shape (withDefinition_tree h)
      have hmember : context.Calls (.shape (path depth) depth definition)
          (.field (path (depth + 1)) (depth + 1) (name (depth + 1)) tree) :=
        .member (by rfl) (by rfl) comesToField_tree
      exact ⟨start, hstart, (hcalls.tail hshape).tail hmember⟩

end TreeDefinition

open TreeDefinition in
/-- A tree is its own part, so its model cannot be loaded: the reference of the 64th tree inside of
the first one is not followed. -/
theorem Contract.ofDeclaration_ends_of_tree :
    Relation.TransGen context.HasPart tree tree ∧
    context.Reaches declaration (.field (path 64) 64 (name 64) tree) ∧
    (∃ e, ofDeclaration {} (.ofDocuments []) none declaration = .error e) ∧
    ofDeclaration {} (.ofDocuments []) none declaration =
      .error (.unresolvedReference (path 64) "#/definitions/Tree") := by
  have hcycle : Relation.TransGen context.HasPart tree tree := .single hasPart_tree
  have hreaches := reaches_tree 64 (le_refl _)
  obtain ⟨_, _, hdeep, hendless⟩ := ofDeclaration_ends {} (.ofDocuments []) none declaration
  refine ⟨hcycle, hreaches, ?_, hdeep _ _ _ _ hreaches (.field rfl) (le_refl _)⟩
  exact hendless _ (List.mem_singleton_self _) ("root", tree) (List.mem_singleton_self _)
    (.inr ⟨tree, .refl, hcycle⟩)

end ContractDrift
