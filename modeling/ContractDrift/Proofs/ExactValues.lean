import ContractDrift.Proofs.BetweenVersions
import ContractDrift.Proofs.Grading
import ContractDrift.Proofs.Places
import ContractDrift.Proofs.Rounding

/-!
# Free values by their exact numbers

Numbers of free values are compared as binary64 values, and an integer of 64 bits can have more
digits than such a value.  Values that are equal number by number are the same.  The converse holds
for integers with room, and without it two integers that are rounded to one value are the same.

* `Json.exactNumber?`, `Json.nearestNumber?` — the number that a value is, and the one that it is
  compared by.
* `Json.EqualBy` — equality at every depth, objects key by key, given the number of a value.
* `Json.equalBy_of_same`, `Json.same_of_equalBy` — being the same is equality by nearest numbers.
* **`Json.same_iff_equal`** — how this relates to equality by exact numbers, and which values are
  sure to give a change.
* **`Json.same_of_distinct_integers`** — two integers that differ and are the same.
-/

namespace ContractDrift

namespace Json

/-! ## Equality by the numbers in two values -/

/-- The exact number that a value is. -/
def exactNumber? : Json → Option (WithBotTop ℚ)
  | .int n => some ((n : ℚ) : WithBotTop ℚ)
  | .real x => x.value?
  | _ => none

/-- The number of the binary64 value that a value is compared by. -/
def nearestNumber? (v : Json) : Option (WithBotTop ℚ) := v.number?.bind Binary64.value?

/-- Equality at every depth.  Numbers are equal if they are one number, lists if they are place by
place, and objects if they are under each key, in whatever order the keys stand. -/
inductive EqualBy (number? : Json → Option (WithBotTop ℚ)) : Json → Json → Prop
  | null : EqualBy number? .null .null
  | bool (b : Bool) : EqualBy number? (.bool b) (.bool b)
  | text (s : String) : EqualBy number? (.text s) (.text s)
  | number {v w : Json} {x : WithBotTop ℚ} (hv : number? v = some x) (hw : number? w = some x) :
      EqualBy number? v w
  | list {a b : List Json} (length : a.length = b.length)
      (items : ∀ (i : ℕ) v w, a[i]? = some v → b[i]? = some w → EqualBy number? v w) :
      EqualBy number? (.list a) (.list b)
  | object {a b : List (String × Json)}
      (keys : ∀ k, lookupEntry k a = none ↔ lookupEntry k b = none)
      (values : ∀ k v w, lookupEntry k a = some v → lookupEntry k b = some w →
        EqualBy number? v w) :
      EqualBy number? (.object a) (.object b)

/-- The values right inside of a value. -/
def parts : Json → List Json
  | .list items => items
  | .object entries => entries.map Prod.snd
  | _ => []

/-- A property of a value and of all values in it, at every depth. -/
inductive Everywhere (P : Json → Prop) : Json → Prop
  | intro {v : Json} (here : P v) (inside : ∀ w ∈ v.parts, Everywhere P w) : Everywhere P v

variable {P Q : Json → Prop} {v w : Json}

lemma Everywhere.here (h : v.Everywhere P) : P v := by
  cases h with
  | intro here inside => exact here

lemma Everywhere.inside (h : v.Everywhere P) (hw : w ∈ v.parts) : w.Everywhere P := by
  cases h with
  | intro here inside => exact inside w hw

lemma everywhere_iff : v.Everywhere P ↔ P v ∧ ∀ w ∈ v.parts, w.Everywhere P :=
  ⟨fun h => ⟨h.here, fun _ => h.inside⟩, fun h => .intro h.1 h.2⟩

@[simp] lemma everywhere_int {n : Int} : (int n).Everywhere P ↔ P (int n) :=
  everywhere_iff.trans (and_iff_left fun _ hw => absurd hw List.not_mem_nil)

@[simp] lemma everywhere_real {x : Binary64} : (real x).Everywhere P ↔ P (real x) :=
  everywhere_iff.trans (and_iff_left fun _ hw => absurd hw List.not_mem_nil)

@[simp] lemma everywhere_text {s : String} : (text s).Everywhere P ↔ P (text s) :=
  everywhere_iff.trans (and_iff_left fun _ hw => absurd hw List.not_mem_nil)

@[simp] lemma everywhere_list {items : List Json} :
    (list items).Everywhere P ↔ P (list items) ∧ ∀ w ∈ items, w.Everywhere P :=
  everywhere_iff

lemma Everywhere.item {items : List Json} {i : ℕ} (h : (list items).Everywhere P)
    (hw : items[i]? = some w) : w.Everywhere P :=
  h.inside (List.mem_of_getElem? hw)

lemma Everywhere.value {entries : List (String × Json)} {k : String}
    (h : (object entries).Everywhere P) (hw : lookupEntry k entries = some w) : w.Everywhere P :=
  h.inside (List.mem_map.2 ⟨(k, w), mem_of_lookupEntry hw, rfl⟩)

/-- A value as JSON has it, apart from its parts: an integer has 64 bits, a fraction is a finite
value of the binary64 format, and an object has its keys in order, as all objects are kept. -/
def IsProper : Json → Prop
  | .int n => inIntegerRange n = true
  | .real x => x.IsDouble
  | .object entries => (entries.map Prod.fst).Pairwise (· < ·)
  | _ => True

/-- An integer has room in a binary64 value. -/
def HasRoom : Json → Prop
  | .int n => Binary64.IsRepresentable n
  | _ => True

/-! ## Being the same -/

/-- Lists are the same place by place. -/
lemma sameList_iff_forall₂ : ∀ {a b : List Json},
    sameList a b = true ↔ List.Forall₂ (fun v w => v.same w = true) a b
  | [], [] => by simp [sameList]
  | [], _ :: _ => by simp [sameList]
  | _ :: _, [] => by simp [sameList]
  | v :: a, w :: b => by
      rw [sameList, List.forall₂_cons, Bool.and_eq_true, sameList_iff_forall₂]

/-- Where keys are the same place by place, so are the look-ups. -/
lemma rel_lookupEntry {R : Json → Json → Prop} {k : String} {a b : List (String × Json)}
    (h : List.Forall₂ (fun x y => x.1 = y.1 ∧ R x.2 y.2) a b) :
    Option.Rel R (lookupEntry k a) (lookupEntry k b) := by
  induction h with
  | nil => exact .none
  | @cons x y a b head tail ih =>
      obtain ⟨l, v⟩ := x
      obtain ⟨m, w⟩ := y
      obtain ⟨rfl, hvw⟩ := head
      simp only [lookupEntry]
      split
      · exact .some hvw
      · exact ih

lemma sizeOf_lt_of_mem_parts (h : w ∈ v.parts) : sizeOf w < sizeOf v := by
  cases v with
  | list items =>
      have : sizeOf w < sizeOf items := List.sizeOf_lt_of_mem h
      simp only [list.sizeOf_spec]
      omega
  | object entries =>
      obtain ⟨⟨k, u⟩, hu, rfl⟩ := List.mem_map.1 h
      have := List.sizeOf_lt_of_mem hu
      simp only [object.sizeOf_spec, Prod.mk.sizeOf_spec] at *
      omega
  | _ => exact absurd h List.not_mem_nil

/-- An induction over a value, which assumes the property for the values right inside. -/
theorem induction_on_parts {P : Json → Prop} (step : ∀ v, (∀ w ∈ v.parts, P w) → P v) (v : Json) :
    P v :=
  step v fun w _ => induction_on_parts step w
termination_by sizeOf v
decreasing_by exact sizeOf_lt_of_mem_parts ‹_›

lemma equalBy_of_number {x : Binary64} (hv : v.number? = some x) (h : v.same w = true) :
    v.EqualBy nearestNumber? w := by
  obtain ⟨y, hw, hxy⟩ := (same_iff_of_number hv).1 h
  obtain ⟨q, hx, hy⟩ := Binary64.same_iff.1 hxy
  exact .number ((congrArg (·.bind Binary64.value?) hv).trans hx)
    ((congrArg (·.bind Binary64.value?) hw).trans hy)

/-- **What is the same is equal by nearest numbers.** -/
theorem equalBy_of_same (v : Json) :
    ∀ {w : Json}, v.same w = true → v.EqualBy nearestNumber? w := by
  induction v using induction_on_parts with
  | step v ih =>
      intro w h
      cases v with
      | null =>
          obtain rfl := same_null_iff.1 h
          exact .null
      | bool b =>
          obtain rfl := same_bool_iff.1 h
          exact .bool b
      | text s =>
          obtain rfl := same_text_iff.1 h
          exact .text s
      | int n => exact equalBy_of_number rfl h
      | real x => exact equalBy_of_number rfl h
      | list a =>
          obtain ⟨b, rfl, hab⟩ := same_list_iff.1 h
          have items := sameList_iff_forall₂.1 hab
          refine .list items.length_eq fun i u w hu hw => ih u (List.mem_of_getElem? hu) ?_
          obtain ⟨w', hw', huw⟩ := getElem?_of_forall₂ items hu
          obtain rfl := Option.some.inj (hw'.symm.trans hw)
          exact huw
      | object a =>
          obtain ⟨b, rfl, hab⟩ := same_object_iff.1 h
          -- keys are the same place by place, so a look-up stops at the same place on both sides
          have found : ∀ k, Option.Rel (fun u w => u.same w = true) (lookupEntry k a)
              (lookupEntry k b) := fun k => rel_lookupEntry (sameEntries_iff_forall₂.1 hab)
          refine .object (fun k => ?_) fun k u w hu hw => ?_
          · have hk := found k
            generalize lookupEntry k a = x, lookupEntry k b = y at hk
            cases hk <;> simp
          · have hk := found k
            rw [hu, hw, Option.rel_some_some] at hk
            exact ih u (List.mem_map.2 ⟨(k, u), mem_of_lookupEntry hu, rfl⟩) hk

/-- **What is equal by nearest numbers is the same**, where the keys of objects are in order. -/
theorem same_of_equalBy (h : v.EqualBy nearestNumber? w) (hv : v.Everywhere IsProper)
    (hw : w.Everywhere IsProper) : v.same w = true := by
  induction h with
  | null => rfl
  | bool b => exact same_bool_iff.2 rfl
  | text s => exact same_text_iff.2 rfl
  | number hx hy =>
      obtain ⟨x, hvx, hx⟩ := Option.bind_eq_some_iff.1 hx
      obtain ⟨y, hwy, hy⟩ := Option.bind_eq_some_iff.1 hy
      exact (same_iff_of_number hvx).2 ⟨y, hwy, Binary64.same_iff.2 ⟨_, hx, hy⟩⟩
  | @list a b length items ih =>
      refine sameList_iff_forall₂.2 (List.forall₂_iff_get.2 ⟨length, fun i ha hb => ?_⟩)
      have hu := List.getElem?_eq_getElem ha
      have hw' := List.getElem?_eq_getElem hb
      exact ih i _ _ hu hw' (hv.item hu) (hw.item hw')
  | @object a b keys values ih =>
      -- look-ups do not see the order of the keys, and here alone it is needed
      refine (sameEntries_iff_lookup hv.here hw.here).2 fun k => ?_
      have hk := keys k
      cases hu : lookupEntry k a with
      | none =>
          rw [hk.1 hu]
          rfl
      | some u =>
          cases hw' : lookupEntry k b with
          | none => exact absurd (hk.2 hw') (by simp [hu])
          | some w => exact ih k u w hu hw' (hv.value hu) (hw.value hw')

/-! ## Exact numbers -/

lemma Everywhere.and (hP : v.Everywhere P) (hQ : v.Everywhere Q) :
    v.Everywhere fun u => P u ∧ Q u := by
  induction hP with
  | intro here _ ih => exact .intro ⟨here, hQ.here⟩ fun u hu => ih u hu (hQ.inside hu)

/-- Equality passes from some numbers to others if it does for two values that are numbers. -/
lemma EqualBy.imp {number? other? : Json → Option (WithBotTop ℚ)}
    (numbers : ∀ {v w x}, P v → P w → number? v = some x → number? w = some x →
      ∃ y, other? v = some y ∧ other? w = some y)
    (h : v.EqualBy number? w) (hv : v.Everywhere P) (hw : w.Everywhere P) :
    v.EqualBy other? w := by
  induction h with
  | null => exact .null
  | bool b => exact .bool b
  | text s => exact .text s
  | number hx hy =>
      obtain ⟨y, hvy, hwy⟩ := numbers hv.here hw.here hx hy
      exact .number hvy hwy
  | list length items ih =>
      exact .list length fun i u w hu hw' => ih i u w hu hw' (hv.item hu) (hw.item hw')
  | object keys values ih =>
      exact .object keys fun k u w hu hw' => ih k u w hu hw' (hv.value hu) (hw.value hw')

/-- Integers that are equal by exact numbers are one integer. -/
lemma eq_of_equalBy_exact {m n : Int} (h : (int m).EqualBy exactNumber? (int n)) : m = n := by
  cases h with
  | number hx hy =>
      exact Int.cast_injective (WithBotTop.coe_injective (Option.some_inj.1 (hx.trans hy.symm)))

/-- The nearest number to an integer is the integer itself exactly if it has room. -/
lemma nearestNumber?_int_iff {n : Int} (h : inIntegerRange n = true) :
    (int n).nearestNumber? = (int n).exactNumber? ↔ Binary64.IsRepresentable n :=
  Binary64.value?_ofInt_eq_iff h

lemma nearestNumber?_eq (hv : v.IsProper) (hroom : v.HasRoom) :
    v.nearestNumber? = v.exactNumber? := by
  cases v with
  | int n => exact (nearestNumber?_int_iff hv).2 hroom
  | _ => rfl

/-- Two numbers that are one number exactly have one nearest number: if they are of two kinds, then
the integer has room, for a value of the binary64 format is that integer. -/
lemma exists_nearestNumber? {x : WithBotTop ℚ} (hv : v.IsProper) (hw : w.IsProper)
    (hx : v.exactNumber? = some x) (hy : w.exactNumber? = some x) :
    ∃ y, v.nearestNumber? = some y ∧ w.nearestNumber? = some y := by
  cases v with
  | int n =>
      cases w with
      | int m =>
          obtain rfl : n = m := eq_of_equalBy_exact (.number hx hy)
          exact ⟨_, Binary64.value?_ofInt hv, Binary64.value?_ofInt hv⟩
      | real b =>
          obtain rfl := Option.some.inj hx
          exact ⟨_, nearestNumber?_eq hv (Binary64.IsDouble.isRepresentable hw hy), hy⟩
      | _ => cases hy
  | real a =>
      cases w with
      | int m =>
          obtain rfl := Option.some.inj hy
          exact ⟨_, hx, nearestNumber?_eq hw (Binary64.IsDouble.isRepresentable hv hx)⟩
      | real b => exact ⟨x, hx, hy⟩
      | _ => cases hy
  | _ => cases hx

lemma same_iff_nearest (hv : v.Everywhere IsProper) (hw : w.Everywhere IsProper) :
    v.same w = true ↔ v.EqualBy nearestNumber? w :=
  ⟨equalBy_of_same v, fun h => same_of_equalBy h hv hw⟩

/-- Values that are equal exactly are the same. -/
lemma same_of_equalBy_exact (hv : v.Everywhere IsProper) (hw : w.Everywhere IsProper)
    (h : v.EqualBy exactNumber? w) : v.same w = true :=
  same_of_equalBy (h.imp exists_nearestNumber? hv hw) hv hw

/-- Where all integers have room, being the same is equality by exact numbers. -/
lemma same_iff_exact (hv : v.Everywhere IsProper) (hw : w.Everywhere IsProper)
    (hvroom : v.Everywhere HasRoom) (hwroom : w.Everywhere HasRoom) :
    v.same w = true ↔ v.EqualBy exactNumber? w := by
  refine ⟨fun h => ?_, same_of_equalBy_exact hv hw⟩
  refine (equalBy_of_same v h).imp (fun hu hu' hx hy => ?_) (hv.and hvroom) (hw.and hwroom)
  rw [nearestNumber?_eq hu.1 hu.2] at hx
  rw [nearestNumber?_eq hu'.1 hu'.2] at hy
  exact ⟨_, hx, hy⟩

end Json

/-! ## Free values of the parts of a contract -/

/-- A free value of a part, in the group of attributes that it belongs to: the default and the
example of a field, and each parameter of a server or a rule. -/
def Node.freeValue? (key : String) : Node → Attribute → Option Json
  | .field f, .default => f.attributes.default?
  | .field f, .metadata => f.attributes.metadata.example?
  | .server s, .parameters => s.parameters.get? key
  | .quality r, .parameters => r.parameters.get? key
  | _, _ => none

lemma Json.rel_of_sameOptional {v w : Option Json} (h : sameOptional v w = true) :
    Option.Rel (EqualBy nearestNumber?) v w := by
  cases v with
  | none =>
      cases w with
      | none => exact .none
      | some w => cases h
  | some v =>
      cases w with
      | none => cases h
      | some w => exact .some (equalBy_of_same v h)

lemma Parameters.same_eq_false {a b : Parameters} {key : String}
    (h : Json.sameOptional (a.get? key) (b.get? key) = false) : a.same b = false :=
  Bool.eq_false_iff.2 fun hsame => Bool.eq_false_iff.1 h (Parameters.same_iff.1 hsame key)

/-- Free values of two parts of one sort that are not the same make their group differ. -/
lemma Node.mem_differences_of_freeValue? {m n : Node} (hsort : m.sort = n.sort) {key : String}
    {group : Attribute}
    (h : Json.sameOptional (m.freeValue? key group) (n.freeValue? key group) = false) :
    group ∈ m.differences n := by
  cases m with
  | field f =>
      cases n with
      | field g =>
          cases group with
          | default =>
              have hdefault : Json.sameOptional f.attributes.default?
                g.attributes.default? = false := h
              simp [differences, Field.differences, FieldAttributes.differences, Attribute.mem_when,
                hdefault]
          | metadata =>
              have hexample : Json.sameOptional f.attributes.metadata.example?
                g.attributes.metadata.example? = false := h
              simp [differences, Field.differences, FieldAttributes.differences, Attribute.mem_when,
                FieldMetadata.same, hexample]
          | _ => cases h
      | _ => cases hsort
  | server s =>
      cases n with
      | server t =>
          cases group with
          | parameters =>
              simp [differences, Server.differences, Attribute.mem_when,
                Parameters.same_eq_false h]
          | _ => cases h
      | _ => cases hsort
  | quality r =>
      cases n with
      | quality s =>
          cases group with
          | parameters =>
              simp [differences, QualityRule.differences, Attribute.mem_when,
                Parameters.same_eq_false h]
          | _ => cases h
      | _ => cases hsort
  | _ => cases n <;> first | cases h | cases hsort

/-- **A free value that changed gives a change**, if it changed by nearest numbers. -/
lemma Contract.modified_of_freeValue? {old new : Contract} {p : Path} {m n : Node}
    (hm : old.index.get? p = some m) (hn : new.index.get? p = some n) {key : String}
    {group : Attribute}
    (h : ¬ Option.Rel (Json.EqualBy Json.nearestNumber?) (m.freeValue? key group)
      (n.freeValue? key group)) :
    .modified p group m n ∈ (old.compare new).changes := by
  have hsort : m.sort = n.sort := sort_eq_of_modified hm hn
  have differ := Bool.eq_false_iff.2 (mt Json.rel_of_sameOptional h)
  exact modified_mem_iff.2 ⟨hm, hn, Node.mem_differences_of_freeValue? hsort differ⟩

namespace Json

variable {v w : Json}

/-- **How being the same relates to equality.**  It is equality by nearest numbers.  Values that are
equal by exact numbers are the same, and the converse holds where all integers have room, that is,
where they are their own nearest numbers.  A default, an example or a parameter of a part in both
versions that comes, goes or changes by nearest numbers is listed as a change of that part. -/
theorem same_iff_equal (hv : v.Everywhere IsProper) (hw : w.Everywhere IsProper) :
    (v.same w = true ↔ v.EqualBy nearestNumber? w) ∧
    (v.EqualBy exactNumber? w → v.same w = true) ∧
    (v.Everywhere HasRoom → w.Everywhere HasRoom → (v.same w = true ↔ v.EqualBy exactNumber? w)) ∧
    (∀ n, inIntegerRange n = true →
      ((int n).nearestNumber? = (int n).exactNumber? ↔ Binary64.IsRepresentable n)) ∧
    ∀ (old new : Contract) (p : Path) (m n : Node), old.index.get? p = some m →
      new.index.get? p = some n → ∀ key group,
      ¬ Option.Rel (EqualBy nearestNumber?) (m.freeValue? key group) (n.freeValue? key group) →
      .modified p group m n ∈ (old.compare new).changes :=
  ⟨same_iff_nearest hv hw, same_of_equalBy_exact hv hw, same_iff_exact hv hw,
    fun _ => nearestNumber?_int_iff,
    fun _ _ _ _ _ hm hn _ _ => Contract.modified_of_freeValue? hm hn⟩

/-- One as an integer and as a fraction, next to an integer with many digits that has room. -/
theorem same_iff_equal_of_two_kinds :
    let v : Json := .list [.int 1, .int 1152921504606846976]
    let w : Json := .list [.real (.finite false 1 0), .int 1152921504606846976]
    v.Everywhere IsProper ∧ w.Everywhere IsProper ∧ v.Everywhere HasRoom ∧ w.Everywhere HasRoom ∧
      v.same w = true ∧ v.EqualBy exactNumber? w := by
  intro v w
  have one : Binary64.IsRepresentable 1 := ⟨1, 0, by decide, by decide⟩
  have large : Binary64.IsRepresentable 1152921504606846976 := ⟨1, 60, by decide, by decide⟩
  have hv : v.Everywhere IsProper := by
    simp [v, IsProper, inIntegerRange, leastInteger, greatestInteger]
  have hw : w.Everywhere IsProper := by
    simp [w, IsProper, inIntegerRange, leastInteger, greatestInteger, Binary64.IsDouble,
      Binary64.leastExponent, Binary64.greatestExponent]
  have hvroom : v.Everywhere HasRoom := by
    simp [v, HasRoom, one, large]
  have hwroom : w.Everywhere HasRoom := by
    simp [w, HasRoom, large]
  have hsame : v.same w = true := by decide +kernel
  obtain ⟨_, _, same_iff, _⟩ := same_iff_equal hv hw
  exact ⟨hv, hw, hvroom, hwroom, hsame, (same_iff hvroom hwroom).1 hsame⟩

/-- **Two integers that differ can be the same**, and then a default that changes from the one to
the other is not listed. -/
theorem same_of_distinct_integers :
    let v : Json := .int 9007199254740992
    let w : Json := .int 9007199254740993
    let total (default : Json) : Field :=
      .scalar { name := "total", default? := some default } .long {}
    v.Everywhere IsProper ∧ w.Everywhere IsProper ∧ v.same w = true ∧ ¬ v.EqualBy exactNumber? w ∧
      ((Contract.single [total v]).compare (Contract.single [total w])).isEmpty = true := by
  intro v w total
  refine ⟨?_, ?_, by decide +kernel, ?_, by decide +kernel⟩
  · simp [v, IsProper, inIntegerRange, leastInteger, greatestInteger]
  · simp [w, IsProper, inIntegerRange, leastInteger, greatestInteger]
  · exact mt eq_of_equalBy_exact (by decide)

end Json

end ContractDrift
