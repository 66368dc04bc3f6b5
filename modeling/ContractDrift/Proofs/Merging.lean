import ContractDrift.Declaration.Basic
import Mathlib.Tactic.Lemma

/-!
# What a definition adds

A field that refers to a definition keeps what it says itself.  Each attribute that it leaves out it
takes from the definition, and so it does with its fields and its tags if it has none.  Its own
reference is gone then, and that of the definition is not taken.  This is said here attribute by
attribute, as one would do it by hand, and held against the function that loading uses.

* `Completed`, `CompletedList` — a part that is there stays, and a missing one is adopted.
* `FieldDeclaration.Merges` — a field with what a definition adds to it.
* **`FieldDeclaration.merges_iff`** — inheriting from a definition does this and nothing else.
-/

namespace ContractDrift

/-! ## Parts -/

/-- What is there stays, and what is missing is adopted. -/
inductive Completed {α : Type} : Option α → Option α → Option α → Prop
  | own {a : α} {b : Option α} : Completed (some a) b (some a)
  | adopted {b : Option α} : Completed none b b

/-- A list that has members stays, and an empty one is replaced. -/
inductive CompletedList {α : Type} : List α → List α → List α → Prop
  | own {l m : List α} (h : l ≠ []) : CompletedList l m l
  | adopted {m : List α} : CompletedList [] m m

lemma completed_iff {α : Type} {a b c : Option α} : Completed a b c ↔ c = a.or b := by
  constructor
  · rintro (_ | _)
    · rfl
    · rfl
  · rintro rfl
    cases a with
    | none => exact .adopted
    | some a => exact .own

lemma completedList_iff {α : Type} {l m k : List α} :
    CompletedList l m k ↔ k = if l.isEmpty then m else l := by
  constructor
  · rintro (h | _)
    · simp [h]
    · rfl
  · rintro rfl
    cases l with
    | nil => exact .adopted
    | cons a l => exact .own nofun

/-! ## Keywords -/

/-- The keywords `k` with those of a definition `d` where they have none are `m`. -/
structure ScalarKeywords.Merges (k d m : ScalarKeywords) : Prop where
  minLength : Completed k.minLength d.minLength m.minLength
  maxLength : Completed k.maxLength d.maxLength m.maxLength
  pattern : Completed k.pattern d.pattern m.pattern
  format : Completed k.format d.format m.format
  minimum : Completed k.minimum d.minimum m.minimum
  maximum : Completed k.maximum d.maximum m.maximum
  exclusiveMinimum : Completed k.exclusiveMinimum d.exclusiveMinimum m.exclusiveMinimum
  exclusiveMaximum : Completed k.exclusiveMaximum d.exclusiveMaximum m.exclusiveMaximum
  allowed : Completed k.allowed d.allowed m.allowed
  precision : Completed k.precision d.precision m.precision
  scale : Completed k.scale d.scale m.scale

lemma ScalarKeywords.merges_iff {k d m : ScalarKeywords} : k.Merges d m ↔ m = k.inherit d := by
  constructor
  · intro h
    cases m
    simp only [inherit, mk.injEq, ← completed_iff]
    exact ⟨h.minLength, h.maxLength, h.pattern, h.format, h.minimum, h.maximum, h.exclusiveMinimum,
      h.exclusiveMaximum, h.allowed, h.precision, h.scale⟩
  · rintro rfl
    constructor <;> exact completed_iff.2 rfl

/-- The keywords `k` without their reference, and with those of a definition `d` where they have
none, are `m`. -/
structure FieldKeywords.Merges (k d m : FieldKeywords) : Prop where
  reference : m.reference = none
  type : Completed k.type d.type m.type
  required : Completed k.required d.required m.required
  unique : Completed k.unique d.unique m.unique
  primary : Completed k.primary d.primary m.primary
  references : Completed k.references d.references m.references
  default? : Completed k.default? d.default? m.default?
  title : Completed k.title d.title m.title
  description : Completed k.description d.description m.description
  scalar : k.scalar.Merges d.scalar m.scalar
  quality : Completed k.quality d.quality m.quality
  tags : CompletedList k.tags d.tags m.tags
  pii : Completed k.pii d.pii m.pii
  classification : Completed k.classification d.classification m.classification
  example? : Completed k.example? d.example? m.example?

lemma FieldKeywords.merges_iff {k d m : FieldKeywords} :
    k.Merges d m ↔ m = { k.inherit d with reference := none } := by
  constructor
  · intro h
    cases m
    simp only [inherit, mk.injEq, ← completed_iff, ← completedList_iff,
      ← ScalarKeywords.merges_iff]
    exact ⟨h.reference, h.type, h.required, h.unique, h.primary, h.references, h.default?, h.title,
      h.description, h.scalar, h.quality, h.tags, h.pii, h.classification, h.example?⟩
  · rintro rfl
    constructor
    case reference => rfl
    case scalar => exact ScalarKeywords.merges_iff.2 rfl
    case tags => exact completedList_iff.2 rfl
    all_goals exact completed_iff.2 rfl

/-! ## Fields -/

namespace FieldDeclaration

variable {d t e : FieldDeclaration}

/-- The field `d` without its reference, and with all that a definition `t` has and it has not, is
`e`. -/
structure Merges (d t e : FieldDeclaration) : Prop where
  keywords : d.keywords.Merges t.keywords e.keywords
  items : Completed d.items t.items e.items
  fields : CompletedList d.fields t.fields e.fields

/-- **What a field inherits from a definition is what the definition adds to it.** -/
theorem merges_iff : d.Merges t e ↔ e = d.withoutReference.inherit t := by
  constructor
  · intro h
    have hkeywords := FieldKeywords.merges_iff.1 h.keywords
    cases e
    simp only [inherit, mk.injEq, ← completed_iff, ← completedList_iff]
    exact ⟨hkeywords, h.items, h.fields⟩
  · rintro rfl
    exact ⟨FieldKeywords.merges_iff.2 rfl, completed_iff.2 rfl, completedList_iff.2 rfl⟩

lemma merges_inherit (d t : FieldDeclaration) : d.Merges t (d.withoutReference.inherit t) :=
  merges_iff.2 rfl

lemma Merges.reference_eq_none (h : d.Merges t e) : e.keywords.reference = none :=
  h.keywords.reference

/-- There is one way to merge. -/
lemma Merges.unique {e' : FieldDeclaration} (h : d.Merges t e) (h' : d.Merges t e') : e = e' :=
  (merges_iff.1 h).trans (merges_iff.1 h').symm

end FieldDeclaration

end ContractDrift
