import ContractDrift.Json.Printer
import ContractDrift.Loading.Quality

/-!
# Loading fields

A declared field becomes a scalar or a nested field. A field that refers to a definition gets what
the definition has and the field does not, and the fields and items that it so obtains may refer on.
Below depth 64 no reference is followed, so loading ends also where definitions contain each other.

* `LoadContext.withDefinition` — a declaration with the definition that it refers to.
* `LoadContext.field`, `LoadContext.fieldList` — fields with all that is inside of them.
-/

namespace ContractDrift

/-- The depth from which on no reference is followed. -/
def greatestFieldDepth : Nat := 64

/-! ## Scalars -/

/-- The greatest magnitude below which a whole number is written without a fraction. -/
def wholeMemberLimit : Nat := 1000000000000000

/-- The text of a number that is a member of an enumeration: a whole number of moderate magnitude is
written as an integer. -/
def Binary64.memberText (x : Binary64) : String :=
  match x.integer? with
  | some n => if n.natAbs < wholeMemberLimit then toString n else NumberLayout.plain.render x
  | none => NumberLayout.plain.render x

/-- The text of a member of an enumeration. `1` and `1.0` are the same member. -/
def memberText (v : Json) : String :=
  match v.number? with
  | some x => x.memberText
  | none => v.compact

/-- The constraints that keywords make up. -/
def ScalarKeywords.constraints (k : ScalarKeywords) : Constraints where
  minLength := k.minLength
  maxLength := k.maxLength
  pattern := k.pattern
  format := k.format
  minimum := k.minimum
  maximum := k.maximum
  exclusiveMinimum := k.exclusiveMinimum
  exclusiveMaximum := k.exclusiveMaximum
  allowed := k.allowed.map fun members => Members.ofList (members.map memberText)

/-- A type whose precision and scale, if it is a decimal that has none, come from keywords. -/
def DataType.withKeywords (k : ScalarKeywords) : DataType → DataType
  | .decimal precision scale => .decimal (precision.or k.precision) (scale.or k.scale)
  | t => t

/-- Whether a type word says that there are fields inside. -/
def isObjectWord (word : String) : Bool := ["object", "record", "struct"].contains word

namespace FieldDeclaration

/-- Whether the items of an array are objects. -/
def isObject (f : FieldDeclaration) : Bool :=
  match f.typeWord with
  | some word => isObjectWord word
  | none => !f.fields.isEmpty

/-- The scalar type that a type word spells. -/
def dataType (f : FieldDeclaration) (path word : String) : Except LoadError DataType :=
  match DataType.parse? word with
  | some t => .ok (t.withKeywords f.keywords.scalar)
  | none => .error (.unknownType path word)

end FieldDeclaration

/-- What a declaration says about the shape of a field: a scalar, or fields inside of a container
that are still to be loaded. -/
inductive FieldShape where
  | scalar (type : DataType) (constraints : Constraints)
  | nested (container : Container) (fields : List Field)

namespace FieldShape

/-- The field of a shape. -/
def field (attributes : FieldAttributes) : FieldShape → Field
  | .scalar type constraints => .scalar attributes type constraints
  | .nested container fields => .nested attributes container fields

end FieldShape

/-- The attributes of a field with given rules. -/
def FieldKeywords.attributes (k : FieldKeywords) (name : String) (quality : List QualityRule) :
    FieldAttributes where
  name := name
  required := k.required.getD false
  unique := k.unique.getD false
  primary := k.primary.getD false
  references := k.references
  default? := k.default?
  title := k.title
  description := k.description
  quality := quality
  metadata :=
    { tags := k.tags, pii := k.pii, classification := k.classification, example? := k.example? }

namespace LoadContext

/-- A declaration with what the definition that it refers to adds. -/
def withDefinition (context : LoadContext) (path : String) (depth : Nat) (f : FieldDeclaration) :
    Except LoadError FieldDeclaration :=
  match f.keywords.reference with
  | none => .ok f
  | some reference =>
    if greatestFieldDepth ≤ depth then .error (.unresolvedReference path reference)
    else if context.settings.inlineDefinitions then do
      let d ← context.definition path reference
      .ok (f.withoutReference.inherit d)
    else .ok f.withoutReference

/-- From the greatest depth on a declaration stays as it is. -/
theorem eq_of_withDefinition {context : LoadContext} {path : String} {depth : Nat}
    {f g : FieldDeclaration} (hd : greatestFieldDepth ≤ depth)
    (h : context.withDefinition path depth f = .ok g) : g = f := by
  unfold withDefinition at h
  split at h
  · cases h
    rfl
  · simp [hd] at h

theorem sizeOf_fields_lt (f : FieldDeclaration) : sizeOf f.fields < sizeOf f := by
  cases f
  simp only [FieldDeclaration.mk.sizeOf_spec]
  omega

theorem sizeOf_items_lt {f items : FieldDeclaration} (h : f.items = some items) :
    sizeOf items < sizeOf f := by
  cases f
  simp only at h
  subst h
  simp only [FieldDeclaration.mk.sizeOf_spec, Option.some.sizeOf_spec]
  omega

/-- What is left to do at a depth: as long as references are followed only the depth counts, and
after that the size of the declaration. -/
def remaining (depth size : Nat) : Nat := if depth < greatestFieldDepth then 0 else size

theorem remaining_lex {d d' s s' t t' : Nat}
    (h : d' < d ∧ d' < greatestFieldDepth ∨
      d' = d ∧ (d < greatestFieldDepth ∧ t < t' ∨
        greatestFieldDepth ≤ d ∧ (s < s' ∨ s = s' ∧ t < t')) ∨
      d' < d ∧ greatestFieldDepth ≤ d' ∧ (s < s' ∨ s = s' ∧ t < t')) :
    Prod.Lex (· < ·) (Prod.Lex (· < ·) (· < ·))
      (greatestFieldDepth - d, remaining d s, t) (greatestFieldDepth - d', remaining d' s', t') := by
  simp only [Prod.lex_def, remaining]
  split <;> split <;> omega

/-- The shape of a scalar field. -/
def scalarShape (path word : String) (f : FieldDeclaration) : Except LoadError FieldShape :=
  if f.fields.isEmpty then do
    let type ← f.dataType path word
    .ok (.scalar type f.keywords.scalar.constraints)
  else .error (.conflictingShape path (.fieldsOfScalar word))

mutual

/-- The field of a declaration. -/
def field (context : LoadContext) (path : String) (depth : Nat) (name : String)
    (declared : FieldDeclaration) : Except LoadError Field :=
  match _inlined : context.withDefinition path depth declared with
  | .error e => .error e
  | .ok f => do
    let shape ← context.shape path depth f
    let quality ← context.rules (path ++ ".quality") f.keywords.quality
    .ok (shape.field (f.keywords.attributes name quality))
termination_by (greatestFieldDepth - depth, remaining depth (sizeOf declared), 2)
decreasing_by
  apply remaining_lex
  rcases Nat.lt_or_ge depth greatestFieldDepth with hd | hd
  · omega
  · cases eq_of_withDefinition hd _inlined
    omega

/-- The shape of a field whose reference has been followed. -/
def shape (context : LoadContext) (path : String) (depth : Nat) (f : FieldDeclaration) :
    Except LoadError FieldShape :=
  match f.typeWord with
  | some word =>
    if isObjectWord word then
      context.nestedShape path depth .object f.keywords.scalar f.fields
    else
      match _items : f.items with
      | some declared =>
        if word = "array" then
          match _inlined : context.withDefinition (path ++ ".items") (depth + 1) declared with
          | .error e => .error e
          | .ok items =>
            if items.isObject then
              if f.fields.isEmpty then
                context.nestedShape path depth .array f.keywords.scalar items.fields
              else .error (.conflictingShape path .fieldsBesideItems)
            else do
              match ← context.shape (path ++ ".items") (depth + 1) items with
              | .scalar type _ => .ok (.scalar (.arrayOf type) f.keywords.scalar.constraints)
              | .nested .. => .error (.conflictingShape (path ++ ".items") .nestedItems)
        else scalarShape path word f
      | none => scalarShape path word f
  | none =>
    if f.fields.isEmpty then .error (.missingType path)
    else context.nestedShape path depth .object f.keywords.scalar f.fields
termination_by (greatestFieldDepth - depth, remaining depth (sizeOf f), 1)
decreasing_by
  · have := sizeOf_fields_lt f
    exact remaining_lex (by omega)
  · apply remaining_lex
    have := sizeOf_items_lt _items
    have := sizeOf_fields_lt items
    rcases Nat.lt_or_ge depth greatestFieldDepth with hd | hd
    · omega
    · cases eq_of_withDefinition (Nat.le_succ_of_le hd) _inlined
      omega
  · apply remaining_lex
    have := sizeOf_items_lt _items
    rcases Nat.lt_or_ge depth greatestFieldDepth with hd | hd
    · omega
    · cases eq_of_withDefinition (Nat.le_succ_of_le hd) _inlined
      omega
  · have := sizeOf_fields_lt f
    exact remaining_lex (by omega)

/-- The shape of a field with fields inside. -/
def nestedShape (context : LoadContext) (path : String) (depth : Nat) (container : Container)
    (keywords : ScalarKeywords) (fields : List (String × FieldDeclaration)) :
    Except LoadError FieldShape := do
  if !keywords.isEmpty then .error (.conflictingShape path .keywordsOfNested)
  else
    let loaded ← context.fieldList path (depth + 1) fields
    .ok (.nested container loaded)
termination_by (greatestFieldDepth - depth, remaining depth (sizeOf fields + 1), 0)
decreasing_by
  exact remaining_lex (by omega)

/-- The fields directly inside of a part at a path; names do not repeat. -/
def fieldList (context : LoadContext) (parent : String) (depth : Nat)
    (fields : List (String × FieldDeclaration)) : Except LoadError (List Field) := do
  let scope := parent ++ ".fields"
  checkUnique scope "field" (fields.map Prod.fst)
  fields.attach.mapM fun ⟨(name, f), _⟩ => context.field (scope ++ "." ++ name) depth name f
termination_by (greatestFieldDepth - depth, remaining depth (sizeOf fields), 3)
decreasing_by
  rename_i member
  have := List.sizeOf_lt_of_mem member
  simp only [Prod.mk.sizeOf_spec] at this
  exact remaining_lex (by omega)

end

end LoadContext

end ContractDrift
