import ContractDrift.Comparison.Value
import ContractDrift.Proofs.RecordSlots
import ContractDrift.Proofs.SelfComparison
import ContractDrift.Proofs.TypeText

/-!
# What a reader sees of a difference

The comparison looks at the data of two parts, and a report shows values that are made from them.
So a difference can be invisible: both sides of its entry show the same.  For loaded contracts this
file says exactly when.

Three things have no value of their own.  The text of a decimal type shows a scale only behind a
precision; a bound that is infinite or NaN is written as `null`; and so are a default that is absent
and one that is `null`.  All other differences are seen.

* `DataType.shown`, `Threshold.shown`, `Constraints.shown` — the data as far as it is shown.
* `DataType.text_eq_iff`, `Threshold.toJson_eq_iff`, `Constraints.toJson_eq_iff` — what is shown.
* `Node.LooksAlike` — two parts differ in a group of attributes and look alike in it.
* **`Contract.modified_looksAlike_iff`** — both sides of a difference show the same exactly if the
  parts look alike.
* **`Contract.modified_unseen_of_scale`** — a scale comes, and nobody sees it.
-/

namespace ContractDrift

/-! ## Data types -/

namespace DataType

/-- The type as far as its text shows it: without a precision, a decimal shows no scale. -/
def shown : DataType → DataType
  | .decimal none _ => .decimal none none
  | .arrayOf element => .arrayOf element.shown
  | t => t

/-- The arguments of a decimal, as its text has them. -/
def argumentChars (p : ℕ) : Option ℕ → List Char
  | some s => Nat.toDigits 10 p ++ ',' :: Nat.toDigits 10 s
  | none => Nat.toDigits 10 p

/-! The text of a type is in one of three forms, and the reader tells them apart. -/

/-- The text of the elements, if the type is that of an array with elements. -/
def elementChars? : DataType → Option (List Char)
  | .arrayOf element => some element.chars
  | _ => none

/-- The arguments in the text, if the type is a decimal with a precision. -/
def argumentChars? : DataType → Option (List Char)
  | .decimal (some p) s => some (argumentChars p s)
  | _ => none

lemma between?_chars (t : DataType) :
    Text.between? "array<".toList '>' t.chars = t.elementChars? := by
  cases t with
  | arrayOf e => exact Text.between?_eq_some_iff.2 rfl
  | decimal p s =>
      cases p with
      | none => rfl
      | some p => cases s <;> rfl
  | _ => rfl

lemma decimalArguments?_chars {t : DataType} (h : t.elementChars? = none) :
    decimalArguments? t.chars = t.argumentChars? := by
  cases t with
  | arrayOf e => cases h
  | decimal p s =>
      cases p with
      | none => rfl
      | some p =>
          cases s with
          | none => exact decimalArguments?_append _
          | some s =>
              have harguments : (decimal (some p) (some s)).chars = "decimal(".toList ++
                  argumentChars p (some s) ++ [')'] :=
                congrArg (· ++ [')']) (List.append_assoc _ _ _)
              rw [harguments]
              exact decimalArguments?_append _
  | _ => rfl

lemma named?_chars {t : DataType} (h : t.elementChars? = none) (h' : t.argumentChars? = none) :
    named? (String.ofList t.chars) = some t.shown := by
  cases t with
  | arrayOf e => cases h
  | decimal p s =>
      cases p with
      | none => rfl
      | some p => cases h'
  | _ => rfl

lemma argumentChars_injective {p q : ℕ} {s r : Option ℕ}
    (h : argumentChars p s = argumentChars q r) : p = q ∧ s = r := by
  have hcomma : ∀ n, ',' ∉ Nat.toDigits 10 n := Text.not_mem_toDigits (by decide)
  have digits : ∀ {m n : ℕ}, Nat.toDigits 10 m = Nat.toDigits 10 n → m = n :=
    fun hmn => Text.digits_injective (congrArg String.ofList hmn)
  have one : ∀ n, Text.fields ',' (Nat.toDigits 10 n) = [Nat.toDigits 10 n] :=
    fun n => Text.fields_of_not_mem (hcomma n)
  have two : ∀ m n, Text.fields ',' (Nat.toDigits 10 m ++ ',' :: Nat.toDigits 10 n) =
      [Nat.toDigits 10 m, Nat.toDigits 10 n] :=
    fun m n => by rw [Text.fields_append (hcomma m), one]
  have fields := congrArg (Text.fields ',') h
  cases s with
  | none =>
      cases r with
      | none => exact ⟨digits h, rfl⟩
      | some r => simp [argumentChars, one, two] at fields
  | some s =>
      cases r with
      | none => simp [argumentChars, one, two] at fields
      | some r =>
          simp only [argumentChars, two, List.cons.injEq, and_true] at fields
          exact ⟨digits fields.1, congrArg some (digits fields.2)⟩

lemma chars_shown (t : DataType) : t.shown.chars = t.chars := by
  induction t with
  | arrayOf element ih => exact congrArg (fun cs => "array<".toList ++ cs ++ ['>']) ih
  | decimal p s => cases p <;> rfl
  | _ => rfl

lemma exists_of_elementChars? {t : DataType} {cs : List Char} (h : t.elementChars? = some cs) :
    ∃ e, t = .arrayOf e ∧ e.chars = cs := by
  unfold elementChars? at h
  split at h
  · exact ⟨_, rfl, Option.some.inj h⟩
  · cases h

lemma exists_of_argumentChars? {t : DataType} {cs : List Char} (h : t.argumentChars? = some cs) :
    ∃ p s, t = .decimal (some p) s ∧ argumentChars p s = cs := by
  unfold argumentChars? at h
  split at h
  · exact ⟨_, _, rfl, Option.some.inj h⟩
  · cases h

/-- Types that are no arrays with elements show the same text only if they show the same. -/
lemma shown_eq_of_no_elements {t u : DataType} (h : t.chars = u.chars)
    (ht : t.elementChars? = none) (hu : u.elementChars? = none) : t.shown = u.shown := by
  have arguments : t.argumentChars? = u.argumentChars? := by
    rw [← decimalArguments?_chars ht, h, decimalArguments?_chars hu]
  cases ha : t.argumentChars? with
  | some cs =>
      obtain ⟨p, s, rfl, rfl⟩ := exists_of_argumentChars? ha
      obtain ⟨q, r, rfl, hqr⟩ := exists_of_argumentChars? (arguments ▸ ha)
      obtain ⟨rfl, rfl⟩ := argumentChars_injective hqr
      rfl
  | none =>
      have word := named?_chars ht ha
      rw [h, named?_chars hu (arguments ▸ ha)] at word
      exact (Option.some.inj word).symm

lemma shown_eq_of_chars_eq {t : DataType} :
    ∀ {u : DataType}, t.chars = u.chars → t.shown = u.shown := by
  induction t with
  | arrayOf e ih =>
      intro u h
      have hu : u.elementChars? = some e.chars := by rw [← between?_chars, ← h, between?_chars]; rfl
      obtain ⟨f, rfl, hf⟩ := exists_of_elementChars? hu
      exact congrArg arrayOf (ih hf.symm)
  | _ =>
      intro u h
      refine shown_eq_of_no_elements h rfl ?_
      rw [← between?_chars, ← h, between?_chars]
      rfl

/-- **The text of a type shows the type**, the scale of a decimal without a precision apart. -/
theorem text_eq_iff {t u : DataType} : t.text = u.text ↔ t.shown = u.shown := by
  rw [text, text, String.ofList_inj]
  constructor
  · exact shown_eq_of_chars_eq
  · intro h
    rw [← chars_shown t, h, chars_shown]

end DataType

/-! ## Numbers and bounds -/

/-- The number as far as it is written: NaN and both infinities look alike. -/
def Binary64.shown (x : Binary64) : Binary64 := if x.isFinite then x else .nan

/-- The bound with its number as far as it is written. -/
def Bound.shown (b : Bound) : Bound := { b with value := b.value.shown }

/-- The threshold with its numbers as far as they are written. -/
def Threshold.shown (t : Threshold) : Threshold :=
  { lower := t.lower.map Bound.shown, upper := t.upper.map Bound.shown }

/-- The constraints with their numbers as far as they are written. -/
def Constraints.shown (c : Constraints) : Constraints :=
  { c with
    minimum := c.minimum.map Binary64.shown
    maximum := c.maximum.map Binary64.shown
    exclusiveMinimum := c.exclusiveMinimum.map Binary64.shown
    exclusiveMaximum := c.exclusiveMaximum.map Binary64.shown }

/-- Two ways to look at a value that tell the same values apart tell the same options apart. -/
lemma map_eq_map_iff {α β γ : Type} {f : α → β} {g : α → γ} (h : ∀ x y, f x = f y ↔ g x = g y)
    {a b : Option α} : a.map f = b.map f ↔ a.map g = b.map g := by
  cases a <;> cases b <;> simp [h]

namespace Json

lemma ofReal_eq_iff (x y : Binary64) : ofReal x = ofReal y ↔ x.shown = y.shown := by
  unfold ofReal Binary64.shown
  cases x <;> cases y <;> simp [Binary64.isFinite]

lemma ofNat_injective : Function.Injective ofNat := fun m n h => by simpa [ofNat] using h

lemma texts_injective : Function.Injective texts := by
  intro l m h
  have same := congrArg asTexts? h
  rw [asTexts?_texts, asTexts?_texts] at same
  exact Option.some.inj same

lemma members_injective : Function.Injective fun s : Members String => texts s.toList := by
  rintro ⟨l, _⟩ ⟨m, _⟩ h
  obtain rfl : l = m := texts_injective h
  rfl

lemma optionalText_injective : Function.Injective optionalText := by
  intro a b h
  cases a <;> cases b <;> simp_all [optionalText]

lemma ofParameters_injective : Function.Injective ofParameters := by
  rintro ⟨l, _⟩ ⟨m, _⟩ h
  obtain rfl : l = m := by simpa [ofParameters] using h
  rfl

/-- An option that is written as `null` if it is absent shows whether it is there. -/
lemma getD_null_injective {α : Type} {write : α → Json} (h : Function.Injective write)
    (hnull : ∀ a, write a ≠ null) :
    Function.Injective fun o : Option α => (o.map write).getD null := by
  intro a b hab
  cases a with
  | none =>
      cases b with
      | none => rfl
      | some b => exact absurd hab.symm (hnull b)
  | some a =>
      cases b with
      | none => exact absurd hab (hnull a)
      | some b => exact congrArg some (h hab)

end Json

open Json (record slot slotOf)

lemma Bound.toJson_eq_iff (a b : Bound) : a.toJson = b.toJson ↔ a.shown = b.shown := by
  have values := Json.ofReal_eq_iff a.value b.value
  constructor
  · intro h
    have slot : ∀ key, a.toJson.get? key = b.toJson.get? key := fun key => by rw [h]
    have value : a.value.shown = b.value.shown := by simpa [toJson, values] using slot "value"
    have inclusive : a.inclusive = b.inclusive := by simpa [toJson] using slot "inclusive"
    rw [shown, shown, value, inclusive]
  · intro h
    simp only [shown, mk.injEq] at h
    simp [toJson, values.2 h.1, h.2]

/-- A slot shows what is written into it. -/
lemma Json.slotOf_congr {α : Type} {key : String} {write : α → Json} {a b : Option α}
    (h : a.map write = b.map write) : slotOf key write a = slotOf key write b := by
  cases a <;> cases b <;> simp_all [slotOf]

/-- **The value of a threshold** shows its ends, numbers that are not finite apart. -/
theorem Threshold.toJson_eq_iff (s t : Threshold) : s.toJson = t.toJson ↔ s.shown = t.shown := by
  have ends : ∀ {a b : Option Bound},
      a.map Bound.toJson = b.map Bound.toJson ↔ a.map Bound.shown = b.map Bound.shown :=
    map_eq_map_iff Bound.toJson_eq_iff
  simp only [shown, mk.injEq, ← ends]
  constructor
  · intro h
    have slot : ∀ key, s.toJson.get? key = t.toJson.get? key := fun key => by rw [h]
    exact ⟨by simpa [toJson] using slot "lower", by simpa [toJson] using slot "upper"⟩
  · rintro ⟨lower, upper⟩
    rw [toJson, toJson, Json.slotOf_congr lower, Json.slotOf_congr upper]

/-- **The value of constraints** shows their keywords, numbers that are not finite apart. -/
theorem Constraints.toJson_eq_iff (c d : Constraints) :
    c.toJson = d.toJson ↔ c.shown = d.shown := by
  have numbers : ∀ {a b : Option Binary64},
      a.map Json.ofReal = b.map Json.ofReal ↔ a.map Binary64.shown = b.map Binary64.shown :=
    map_eq_map_iff Json.ofReal_eq_iff
  have counts : ∀ {a b : Option ℕ}, a.map Json.ofNat = b.map Json.ofNat ↔ a = b :=
    (Option.map_injective Json.ofNat_injective).eq_iff
  have words : ∀ {a b : Option String}, a.map Json.text = b.map Json.text ↔ a = b :=
    (Option.map_injective fun _ _ => Json.text.inj).eq_iff
  have members : ∀ {a b : Option (Members String)},
      a.map (fun s => Json.texts s.toList) = b.map (fun s => Json.texts s.toList) ↔ a = b :=
    (Option.map_injective Json.members_injective).eq_iff
  simp only [shown, mk.injEq, ← numbers]
  constructor
  · intro h
    have slot : ∀ key, c.toJson.get? key = d.toJson.get? key := fun key => by rw [h]
    refine ⟨?_, ?_, ?_, ?_, ?_, ?_, ?_, ?_, ?_⟩
    · simpa [toJson, counts] using slot "minLength"
    · simpa [toJson, counts] using slot "maxLength"
    · simpa [toJson, words] using slot "pattern"
    · simpa [toJson, words] using slot "format"
    · simpa [toJson] using slot "minimum"
    · simpa [toJson] using slot "maximum"
    · simpa [toJson] using slot "exclusiveMinimum"
    · simpa [toJson] using slot "exclusiveMaximum"
    · simpa [toJson, members] using slot "enum"
  · rintro ⟨minLength, maxLength, pattern, format, minimum, maximum, exclusiveMinimum,
      exclusiveMaximum, allowed⟩
    rw [toJson, toJson, minLength, maxLength, pattern, format, allowed, Json.slotOf_congr minimum,
      Json.slotOf_congr maximum, Json.slotOf_congr exclusiveMinimum,
      Json.slotOf_congr exclusiveMaximum]

/-! ## Parts that look alike -/

/-- The parts look alike in a group of attributes in which they may differ: types of which the text
does not show the scale, bounds that are not finite, or a default of which only one is there, and
that one is `null`. -/
inductive Node.LooksAlike : Attribute → Node → Node → Prop
  | type {a b : FieldAttributes} {t u : DataType} {c d : Constraints} (shown : t.shown = u.shown) :
      LooksAlike .type (.field (.scalar a t c)) (.field (.scalar b u d))
  | constraints {a b : FieldAttributes} {t u : DataType} {c d : Constraints}
      (shown : c.shown = d.shown) :
      LooksAlike .constraints (.field (.scalar a t c)) (.field (.scalar b u d))
  | threshold {r s : QualityRule} (shown : r.threshold.shown = s.threshold.shown) :
      LooksAlike .threshold (.quality r) (.quality s)
  | default_came {f g : Field} (old : f.attributes.default? = none)
      (new : g.attributes.default? = some .null) : LooksAlike .default (.field f) (.field g)
  | default_went {f g : Field} (old : f.attributes.default? = some .null)
      (new : g.attributes.default? = none) : LooksAlike .default (.field f) (.field g)

namespace Node

lemma looksAlike_type_iff {a b : FieldAttributes} {t u : DataType} {c d : Constraints} :
    LooksAlike .type (.field (.scalar a t c)) (.field (.scalar b u d)) ↔ t.shown = u.shown := by
  refine ⟨fun h => ?_, .type⟩
  cases h with
  | type shown => exact shown

lemma looksAlike_constraints_iff {a b : FieldAttributes} {t u : DataType} {c d : Constraints} :
    LooksAlike .constraints (.field (.scalar a t c)) (.field (.scalar b u d)) ↔
      c.shown = d.shown := by
  refine ⟨fun h => ?_, .constraints⟩
  cases h with
  | constraints shown => exact shown

lemma looksAlike_threshold_iff {r s : QualityRule} :
    LooksAlike .threshold (.quality r) (.quality s) ↔ r.threshold.shown = s.threshold.shown := by
  refine ⟨fun h => ?_, .threshold⟩
  cases h with
  | threshold shown => exact shown

lemma looksAlike_default_iff {e f : Field} : LooksAlike .default (.field e) (.field f) ↔
    e.attributes.default? = none ∧ f.attributes.default? = some .null ∨
      e.attributes.default? = some .null ∧ f.attributes.default? = none := by
  constructor
  · intro h
    cases h with
    | default_came old new => exact .inl ⟨old, new⟩
    | default_went old new => exact .inr ⟨old, new⟩
  · rintro (⟨old, new⟩ | ⟨old, new⟩)
    · exact .default_came old new
    · exact .default_went old new

end Node

section Groups

variable {g : Attribute}

lemma describedValue_eq_iff {t u d e : Option String} :
    describedValue t d = describedValue u e ↔ t = u ∧ d = e := by
  simp [describedValue, Json.optionalText_injective.eq_iff, and_comm]

lemma Parameters.ofParameters_ne {p q : Parameters} (hp : p.IsDefinite) (h : p.same q = false) :
    Json.ofParameters p ≠ Json.ofParameters q := by
  intro heq
  rw [← Json.ofParameters_injective heq, hp.same_self] at h
  cases h

lemma Contact.toJson_injective : Function.Injective Contact.toJson := by
  intro c d h
  have slot : ∀ key, c.toJson.get? key = d.toJson.get? key := fun key => by rw [h]
  have words : ∀ {a b : Option String}, a.map Json.text = b.map Json.text ↔ a = b :=
    (Option.map_injective fun _ _ => Json.text.inj).eq_iff
  have name : c.name = d.name := by simpa [toJson, words] using slot "name"
  have url : c.url = d.url := by simpa [toJson, words] using slot "url"
  have email : c.email = d.email := by simpa [toJson, words] using slot "email"
  obtain ⟨_, _, _⟩ := c
  obtain ⟨_, _, _⟩ := d
  simp_all

/-- All differences of identities are seen. -/
lemma Identity.groupValue_ne {i j : Identity} (h : g ∈ i.differences j) :
    i.groupValue g ≠ j.groupValue g := by
  have contacts : ∀ {a b : Option Contact}, ((a.map Contact.toJson).getD .null =
      (b.map Contact.toJson).getD .null) ↔ a = b :=
    (Json.getD_null_injective Contact.toJson_injective (fun _ h => by cases h)).eq_iff
  simp only [differences, List.mem_append, Attribute.mem_when, Bool.or_eq_true, bne_iff_ne] at h
  rcases h with ⟨rfl, h⟩ | ⟨rfl, h⟩
  · simpa [groupValue, describedValue_eq_iff, ← not_and_or] using h
  · intro heq
    simp [groupValue, contacts, Json.optionalText_injective.eq_iff] at heq
    simp [heq] at h

lemma Terms.toJson_injective : Function.Injective Terms.toJson := by
  intro s t h
  have slot : ∀ key, s.toJson.get? key = t.toJson.get? key := fun key => by rw [h]
  have words : ∀ {a b : Option String}, a.map Json.text = b.map Json.text ↔ a = b :=
    (Option.map_injective fun _ _ => Json.text.inj).eq_iff
  have usage : s.usage = t.usage := by simpa [toJson, words] using slot "usage"
  have limitations : s.limitations = t.limitations := by
    simpa [toJson, words] using slot "limitations"
  have billing : s.billing = t.billing := by simpa [toJson, words] using slot "billing"
  have noticePeriod : s.noticePeriod = t.noticePeriod := by
    simpa [toJson, words] using slot "noticePeriod"
  obtain ⟨_, _, _, _⟩ := s
  obtain ⟨_, _, _, _⟩ := t
  simp_all

/-- The name of a platform that was read shows the platform. -/
lemma ServerType.eq_of_name_eq {s t : ServerType} (hs : ∃ tag, s = parse tag)
    (ht : ∃ tag, t = parse tag) (h : s.name = t.name) : s = t := by
  obtain ⟨tag, hs⟩ := hs
  obtain ⟨other, ht⟩ := ht
  calc s = parse s.name := by rw [hs, parse_name]
    _ = parse t.name := by rw [h]
    _ = t := by rw [ht, parse_name]

/-- All differences of servers are seen. -/
lemma Server.groupValue_ne {s t : Server} (hs : ∃ tag, s.type = .parse tag)
    (ht : ∃ tag, t.type = .parse tag) (definite : s.parameters.IsDefinite)
    (h : g ∈ s.differences t) : s.groupValue g ≠ t.groupValue g := by
  simp only [differences, List.mem_append, Attribute.mem_when, bne_iff_ne,
    Bool.not_eq_true'] at h
  rcases h with (⟨rfl, h⟩ | ⟨rfl, h⟩) | ⟨rfl, h⟩
  · exact fun heq => h (ServerType.eq_of_name_eq hs ht (Json.text.inj heq))
  · exact Parameters.ofParameters_ne definite h
  · exact fun heq => h (Json.optionalText_injective heq)

/-- All differences of models are seen. -/
lemma Model.groupValue_ne {m n : Model} (h : g ∈ m.differences n) :
    m.groupValue g ≠ n.groupValue g := by
  simp only [differences, List.mem_append, Attribute.mem_when, bne_iff_ne, Bool.or_eq_true,
    Bool.not_eq_true'] at h
  rcases h with ((⟨rfl, h⟩ | ⟨rfl, h⟩) | ⟨rfl, h⟩) | ⟨rfl, h⟩
  · exact fun heq => h (Json.optionalText_injective heq)
  · exact fun heq => h (Json.getD_null_injective Json.texts_injective (fun _ h => by cases h) heq)
  · simpa [groupValue, describedValue_eq_iff, ← not_and_or] using h
  · intro heq
    rw [Json.texts_injective heq] at h
    simp [sameMembers] at h

/-- Of the differences of rules those between thresholds that look alike are not seen. -/
lemma QualityRule.groupValue_eq_iff {r s : QualityRule} (definite : r.parameters.IsDefinite)
    (h : g ∈ r.differences s) :
    r.groupValue g = s.groupValue g ↔ Node.LooksAlike g (.quality r) (.quality s) := by
  simp only [differences, List.mem_append, Attribute.mem_when, bne_iff_ne,
    Bool.not_eq_true'] at h
  rcases h with ((⟨rfl, h⟩ | ⟨rfl, h⟩) | ⟨rfl, h⟩) | ⟨rfl, h⟩
  · exact iff_of_false (fun heq => h (QualityKind.name_injective (Json.text.inj heq)))
      (by rintro ⟨⟩)
  · exact (Threshold.toJson_eq_iff _ _).trans Node.looksAlike_threshold_iff.symm
  · exact iff_of_false (Parameters.ofParameters_ne definite h) (by rintro ⟨⟩)
  · exact iff_of_false (fun heq => h (Json.optionalText_injective heq)) (by rintro ⟨⟩)

/-- No text of a type is the label of a container. -/
lemma Field.text_ne_label (t : DataType) (container : Container) : t.text ≠ container.label := by
  have word : ∀ {t : DataType}, t.chars ≠ "object".toList := by
    intro t h
    have flat : t.elementChars? = none := by rw [← DataType.between?_chars, h]; rfl
    have bare : t.argumentChars? = none := by rw [← DataType.decimalArguments?_chars flat, h]; rfl
    have named := DataType.named?_chars flat bare
    rw [h] at named
    cases named
  intro h
  have chars : t.chars = container.label.toList := by rw [← h, DataType.text, String.toList_ofList]
  cases container with
  | object => exact word chars
  | array =>
      have elements : t.elementChars? = some "object".toList := by
        rw [← DataType.between?_chars, chars]; rfl
      obtain ⟨e, _, he⟩ := DataType.exists_of_elementChars? elements
      exact word he

lemma Container.label_injective : Function.Injective Container.label := by
  intro k l h
  cases k <;> cases l <;> first | rfl | exact absurd h (by decide)

lemma FieldMetadata.toJson_ne {m n : FieldMetadata} (definite : ∀ v ∈ m.example?, v.IsDefinite)
    (h : m.same n = false) : m.toJson ≠ n.toJson := by
  intro heq
  have slot : ∀ key, m.toJson.get? key = n.toJson.get? key := fun key => by rw [heq]
  have words : ∀ {a b : Option String}, a.map Json.text = b.map Json.text ↔ a = b :=
    (Option.map_injective fun _ _ => Json.text.inj).eq_iff
  have bools : ∀ {a b : Option Bool}, a.map Json.bool = b.map Json.bool ↔ a = b :=
    (Option.map_injective fun _ _ => Json.bool.inj).eq_iff
  have tags : m.tags = n.tags := by
    have htags := slot "tags"
    simp [toJson] at htags
    cases hm : m.tags <;> cases hn : n.tags <;> simp_all [Json.texts_injective.eq_iff]
  have pii : m.pii = n.pii := by simpa [toJson, bools] using slot "pii"
  have classification : m.classification = n.classification := by
    simpa [toJson, words] using slot "classification"
  have example? : m.example? = n.example? := by simpa [toJson] using slot "example"
  have same : Json.sameOptional n.example? n.example? = true :=
    Json.sameOptional_self (example? ▸ definite)
  simp [FieldMetadata.same, sameMembers, tags, pii, classification, example?, same] at h

lemma Json.getD_null_eq_iff {a b : Option Json} (ha : ∀ v ∈ a, v.IsDefinite)
    (h : sameOptional a b = false) :
    a.getD .null = b.getD .null ↔ a = none ∧ b = some .null ∨ a = some .null ∧ b = none := by
  cases a with
  | none =>
      cases b with
      | none => cases h
      | some w => simp [eq_comm]
  | some v =>
      cases b with
      | none => simp
      | some w =>
          simp only [Option.getD_some]
          refine iff_of_false ?_ (by simp)
          rintro rfl
          rw [sameOptional, ha v rfl] at h
          cases h

/-- Of the differences in the shapes of fields, those between types or constraints that look alike
are not seen. -/
lemma Field.shapeValue_eq_iff {e f : Field} (h : g ∈ e.shapeDifferences f) :
    e.groupValue g = f.groupValue g ↔ Node.LooksAlike g (.field e) (.field f) := by
  cases e with
  | scalar a t c =>
      cases f with
      | scalar b u d =>
          simp only [shapeDifferences, List.mem_append, Attribute.mem_when] at h
          rcases h with ⟨rfl, _⟩ | ⟨rfl, _⟩
          · have : (Json.text t.text = Json.text u.text) ↔ t.shown = u.shown := by
              rw [Json.text.injEq, DataType.text_eq_iff]
            exact this.trans Node.looksAlike_type_iff.symm
          · exact (Constraints.toJson_eq_iff c d).trans Node.looksAlike_constraints_iff.symm
      | nested b k fs =>
          obtain rfl := List.mem_singleton.1 h
          exact iff_of_false (fun heq => text_ne_label t k (Json.text.inj heq)) (by rintro ⟨⟩)
  | nested a k fs =>
      cases f with
      | scalar b u d =>
          obtain rfl := List.mem_singleton.1 h
          exact iff_of_false (fun heq => text_ne_label u k (Json.text.inj heq.symm)) (by rintro ⟨⟩)
      | nested b l gs =>
          obtain ⟨rfl, hne⟩ := Attribute.mem_when.1 h
          refine iff_of_false (fun heq => ?_) (by rintro ⟨⟩)
          exact bne_iff_ne.1 hne (Container.label_injective (Json.text.inj heq))

/-- Of the differences in other groups those between a default that is absent and one that is `null`
are not seen. -/
lemma Field.attributeValue_eq_iff {e f : Field} (definite : (Node.field e).IsDefinite)
    (h : g ∈ e.attributes.differences f.attributes) :
    e.groupValue g = f.groupValue g ↔ Node.LooksAlike g (.field e) (.field f) := by
  simp only [FieldAttributes.differences, List.mem_append, Attribute.mem_when, bne_iff_ne,
    Bool.or_eq_true, Bool.not_eq_true'] at h
  rcases h with (((((⟨rfl, h⟩ | ⟨rfl, h⟩) | ⟨rfl, h⟩) | ⟨rfl, h⟩) | ⟨rfl, h⟩) | ⟨rfl, h⟩) | ⟨rfl, h⟩
  · exact iff_of_false (by simpa [groupValue] using h) (by rintro ⟨⟩)
  · exact iff_of_false (by simpa [groupValue] using h) (by rintro ⟨⟩)
  · exact iff_of_false (by simpa [groupValue] using h) (by rintro ⟨⟩)
  · exact iff_of_false (fun heq => h (Json.optionalText_injective heq)) (by rintro ⟨⟩)
  · exact (Json.getD_null_eq_iff definite.1 h).trans Node.looksAlike_default_iff.symm
  · exact iff_of_false (by simpa [groupValue, describedValue_eq_iff, ← not_and_or] using h)
      (by rintro ⟨⟩)
  · exact iff_of_false (FieldMetadata.toJson_ne definite.2 h) (by rintro ⟨⟩)

/-- **A difference of two parts is not seen** exactly if they look alike in its group. -/
theorem Node.groupValue_eq_iff {m n : Node} (hs : m.sort = n.sort) (definite : m.IsDefinite)
    (servers : ∀ s, m = .server s ∨ n = .server s → ∃ tag, s.type = .parse tag)
    (h : g ∈ m.differences n) : m.groupValue g = n.groupValue g ↔ m.LooksAlike g n := by
  cases m <;> cases n <;> try cases hs
  case info.info => exact iff_of_false (Identity.groupValue_ne h) (by rintro ⟨⟩)
  case terms.terms s t =>
    obtain ⟨_, hne⟩ := Attribute.mem_when.1 h
    exact iff_of_false (fun heq => bne_iff_ne.1 hne (Terms.toJson_injective heq)) (by rintro ⟨⟩)
  case server.server s t =>
    exact iff_of_false (Server.groupValue_ne (servers s (.inl rfl)) (servers t (.inr rfl))
      definite h) (by rintro ⟨⟩)
  case model.model => exact iff_of_false (Model.groupValue_ne h) (by rintro ⟨⟩)
  case field.field =>
    rcases List.mem_append.1 h with h | h
    · exact Field.shapeValue_eq_iff h
    · exact Field.attributeValue_eq_iff definite h
  case quality.quality => exact QualityRule.groupValue_eq_iff definite h

end Groups

/-! ## Loaded contracts -/

lemma ServerDeclaration.exists_parse_of_toServer {name : String} {d : ServerDeclaration}
    {s : Server} (h : d.toServer name = .ok s) : ∃ tag, s.type = .parse tag := by
  unfold toServer at h
  split at h
  · cases h
  · rename_i tag _
    obtain rfl := Except.ok.inj h
    exact ⟨tag, by with_reducible rfl⟩

namespace Contract

/-- The platform of a loaded server is one that its tag names. -/
lemma servers_parse_of_ofDeclaration {settings : LoaderSettings} {fetcher : Fetcher}
    {base : Option String} {d : ContractDeclaration} {c : Contract}
    (h : ofDeclaration settings fetcher base d = .ok c) :
    ∀ s ∈ c.servers, ∃ tag, s.type = .parse tag := by
  unfold ofDeclaration at h
  obtain ⟨_, _, h⟩ := bind_eq_ok_iff.1 h
  obtain ⟨_, _, h⟩ := bind_eq_ok_iff.1 h
  obtain ⟨servers, hservers, h⟩ := bind_eq_ok_iff.1 h
  obtain ⟨_, _, h⟩ := bind_eq_ok_iff.1 h
  obtain ⟨_, _, h⟩ := bind_eq_ok_iff.1 h
  cases h
  intro s hs
  obtain ⟨e, _, he⟩ := exists_left_of_forall₂ (forall₂_of_mapM_eq_ok hservers) hs
  exact ServerDeclaration.exists_parse_of_toServer he

lemma servers_parse_of_get?_index {c : Contract} (h : ∀ s ∈ c.servers, ∃ tag, s.type = .parse tag)
    {p : Path} {s : Server} (hs : c.index.get? p = some (.server s)) :
    ∃ tag, s.type = .parse tag :=
  h s (mem_nodes_iff_nodeAt.1 (Entries.mem_of_get?_ofList hs)).1

section Loaded

variable {settings settings' : LoaderSettings} {fetcher fetcher' : Fetcher} {text text' : String}
  {base base' : Option String} {a b : Contract}

/-- **What a reader sees of the differences of two loaded contracts.**  Both sides of a difference
show the same exactly if the parts look alike in its group: if it is a scale behind no precision, a
bound that stays infinite or NaN, or a default `null` that came or went. -/
theorem modified_looksAlike_iff (ha : ofText settings fetcher text base = .ok a)
    (hb : ofText settings' fetcher' text' base' = .ok b) {p : Path} {g : Attribute} {m n : Node}
    (h : .modified p g m n ∈ (a.compare b).changes) :
    (Change.modified p g m n).oldValue = (Change.modified p g m n).newValue ↔ m.LooksAlike g n := by
  obtain ⟨d, _, hd⟩ := exists_of_ofText ha
  obtain ⟨e, _, he⟩ := exists_of_ofText hb
  obtain ⟨hm, hn, hg⟩ := modified_mem_iff.1 h
  refine Node.groupValue_eq_iff (sort_eq_of_modified hm hn)
    ((isDefinite_of_ofText ha).of_get?_index hm) ?_ hg
  rintro s (rfl | rfl)
  · exact servers_parse_of_get?_index (servers_parse_of_ofDeclaration hd) hm
  · exact servers_parse_of_get?_index (servers_parse_of_ofDeclaration he) hn

end Loaded

end Contract

/-! ## A scale that nobody sees -/

namespace UnseenScale

open FieldDocument (contract tree)
open NanMinimum (key treeUnder)
open Yaml (Tree Document Token)

/-- The text of the old version. -/
def oldText : String := "models: {m: {fields: {f: {type: decimal}}}}"

/-- The text of the new version. -/
def newText : String := "models: {m: {fields: {f: {type: decimal, scale: 2}}}}"

/-- The decimal field, with a scale or without. -/
def field (scale : Option ℕ) : Field := .scalar { name := "f" } (.decimal none scale) {}

/-- The tokens of a document, given those of the keywords of its field. -/
def tokens (keywords : List Token) : List Token :=
  .blockMapping :: key "models" ++ .flowMapping :: key "m" ++ .flowMapping :: key "fields" ++
    .flowMapping :: key "f" ++ .flowMapping :: keywords ++
      [.flowMappingEnd, .flowMappingEnd, .flowMappingEnd, .flowMappingEnd, .blockEnd]

/-- The tokens of the keyword that both versions have. -/
def typeTokens : List Token := key "type" ++ [.scalar .plain "decimal"]

/-- The tokens of the keyword that comes. -/
def scaleTokens : List Token := .flowEntry :: key "scale" ++ [.scalar .plain "2"]

/-- The field of the old version as a tree. -/
def oldTree : Tree := .mapping none [treeUnder "type" (.scalar none .plain "decimal")]

/-- The field of the new version as a tree. -/
def newTree : Tree :=
  .mapping none [treeUnder "type" (.scalar none .plain "decimal"),
    treeUnder "scale" (.scalar none .plain "2")]

set_option maxRecDepth 10000 in
lemma listOf?_oldText : Token.listOf? oldText = some (tokens typeTokens) := by
  rfl

set_option maxRecDepth 10000 in
lemma listOf?_newText : Token.listOf? newText = some (tokens (typeTokens ++ scaleTokens)) := by
  rfl

lemma read?_oldText : Document.read? oldText = some (.root (tree oldTree)) := by
  simp only [Document.read?, listOf?_oldText, Option.bind_eq_bind, Option.bind_some]
  cbv

lemma read?_newText : Document.read? newText = some (.root (tree newTree)) := by
  simp only [Document.read?, listOf?_newText, Option.bind_eq_bind, Option.bind_some]
  cbv

lemma parse?_decimal : DataType.parse? (Text.canonical "decimal") = some (.decimal none none) := by
  decide +kernel

lemma ofText_oldText : Contract.ofText {} (.ofDocuments []) oldText = .ok (contract (field none)) :=
  FieldDocument.ofText_eq (d := .ofType "decimal" {}) (by rfl) read?_oldText
    (by unfold FieldDeclaration.read?; rfl)
    fun _ _ => LoadContext.field_ofType "f" _ (by decide) parse?_decimal

lemma ofText_newText :
    Contract.ofText {} (.ofDocuments []) newText = .ok (contract (field (some 2))) :=
  FieldDocument.ofText_eq (d := .ofType "decimal" { scale := some 2 }) (by rfl)
    read?_newText (by unfold FieldDeclaration.read?; rfl)
    fun _ _ => LoadContext.field_ofType "f" _ (by decide) parse?_decimal

/-- The difference between the two versions. -/
def change : Change :=
  .modified ["models", "m", "fields", "f"] .type (.field (field none)) (.field (field (some 2)))

lemma change_mem :
    change ∈ ((contract (field none)).compare (contract (field (some 2)))).changes :=
  Contract.modified_mem_iff.2 ⟨rfl, rfl, by decide⟩

end UnseenScale

namespace Contract

open FieldDocument UnseenScale in
/-- A decimal type gets a scale: the types look alike. -/
theorem modified_looksAlike_of_scale :
    ofText {} (.ofDocuments []) oldText = .ok (contract (field none)) ∧
      ofText {} (.ofDocuments []) newText = .ok (contract (field (some 2))) ∧
      change ∈ ((contract (field none)).compare (contract (field (some 2)))).changes ∧
      change.oldValue = change.newValue := by
  refine ⟨ofText_oldText, ofText_newText, change_mem, ?_⟩
  exact (modified_looksAlike_iff UnseenScale.ofText_oldText UnseenScale.ofText_newText
    UnseenScale.change_mem).2 (.type rfl)

/-- **A reported difference need not be seen**: a scale comes to a decimal type, and the report says
that the type has changed from `decimal` to `decimal`. -/
theorem modified_unseen_of_scale :
    ∃ a b, ofText {} (.ofDocuments []) "models: {m: {fields: {f: {type: decimal}}}}" = .ok a ∧
      ofText {} (.ofDocuments []) "models: {m: {fields: {f: {type: decimal, scale: 2}}}}" = .ok b ∧
      ∃ c ∈ (a.compare b).changes, c.kind = .modified ∧ c.oldValue = .text "decimal" ∧
        c.newValue = .text "decimal" :=
  ⟨_, _, UnseenScale.ofText_oldText, UnseenScale.ofText_newText, _, UnseenScale.change_mem, rfl,
    rfl, rfl⟩

end Contract

end ContractDrift
