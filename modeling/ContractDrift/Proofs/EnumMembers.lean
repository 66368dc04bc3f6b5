import ContractDrift.Loading.Field
import ContractDrift.Proofs.FreeValues
import ContractDrift.Proofs.JsonText
import Mathlib.Data.Nat.Cast.Field

/-!
# The members of an enumeration

The allowed values of a field are kept as a set of texts.  A number is written by its value, so that
`1` and `1.0` are one member; any other value is written as JSON text, and since this reads back,
no two of them have one text.  Numbers inside of a list or an object are part of such a text: there
`1` and `1.0` are told apart, while a comparison of defaults or parameters takes them for the same.

* `Binary64.memberText_eq_iff` — two numbers have one text exactly if they are the same.
* **`Yaml.Tree.isCanonical_of_json?`** — a document is read as a value in its one form.
* `Json.SameMember` — two values are one member; **`Json.memberText_eq_iff`** — exactly these have
  one text.
* `Json.HasNoInnerNumbers` — no number is inside of a list or an object.
* **`Json.memberText_eq_iff_same`** — which members and which enumerations are stored as one, and
  when this is being the same.
* **`Json.memberText_ne_of_inner_number`** — two lists that are the same and two members.
-/

namespace ContractDrift

/-! ## Members that are numbers -/

namespace Binary64

/-- The sign of zero is not written. -/
lemma memberText_zero (negative : Bool) : (zero negative).memberText = "0" := by
  have hinteger : (zero negative).integer? = some 0 := by
    rw [zero, integer?, if_neg (by decide), Nat.zero_mod, if_pos rfl, Nat.zero_div]
    cases negative <;> rfl
  rw [memberText, hinteger]
  rfl

/-- The integer that a value is. -/
lemma integer?_spec {negative : Bool} {c : ℕ} {e i : ℤ}
    (h : integer? (.finite negative c e) = some i) :
    ∃ m : ℕ, (m : ℚ) = c * 2 ^ e ∧ i = signed negative m := by
  rw [integer?] at h
  split at h
  · rename_i hpos
    obtain ⟨n, rfl⟩ := Int.eq_ofNat_of_zero_le hpos
    refine ⟨c * twoPow n, ?_, (Option.some.inj h).symm⟩
    rw [Nat.cast_mul, twoPow_cast, zpow_natCast]
  · rename_i hneg
    obtain ⟨n, hn⟩ := Int.eq_ofNat_of_zero_le (a := -e) (by omega)
    obtain rfl : e = -n := by omega
    rw [hn, Int.toNat_natCast] at h
    split at h
    · rename_i hdvd
      refine ⟨c / twoPow n, ?_, (Option.some.inj h).symm⟩
      rw [Nat.cast_div (Nat.dvd_of_mod_eq_zero hdvd) (by simp [twoPow]), twoPow_cast, zpow_neg,
        zpow_natCast, div_eq_mul_inv]
    · cases h

lemma eq_zero_of_isCanonical {negative : Bool} {e : ℤ} (h : IsCanonical (.finite negative 0 e)) :
    finite negative 0 e = zero negative := by
  rw [zero, h.1.full.resolve_left (by decide)]

lemma abs_rational (negative : Bool) (c : ℕ) (e : ℤ) : |rational negative c e| = c * 2 ^ e := by
  rw [rational, abs_mul, abs_of_pos (zpow_pos_two e)]
  cases negative <;> simp [signed]

lemma rational_neg_iff {negative : Bool} {c : ℕ} {e : ℤ} (hc : 0 < c) :
    rational negative c e < 0 ↔ negative = true := by
  have hpos : (0 : ℚ) < c * 2 ^ e := mul_pos (by exact_mod_cast hc) (zpow_pos_two e)
  cases negative
  · simpa [rational, signed] using hpos.le
  · simpa [rational, signed] using hpos

/-- **Of two values in their one form that are the same, only zeros may differ.** -/
lemma eq_or_zero_of_same {x y : Binary64} (hx : x.IsCanonical) (hy : y.IsCanonical)
    (h : x.same y = true) : x = y ∨ (∃ s, x = zero s) ∧ ∃ t, y = zero t := by
  cases x with
  | finite negative c e =>
      cases y with
      | finite negative' c' e' =>
          have hnumber : rational negative c e = rational negative' c' e' := by
            obtain ⟨r, hr, hr'⟩ := same_iff.1 h
            exact WithBotTop.coe_injective (Option.some.inj (hr.trans hr'.symm))
          have habs : (c * 2 ^ e : ℚ) = c' * 2 ^ e' := by
            rw [← abs_rational negative, hnumber, abs_rational]
          rcases Nat.eq_zero_or_pos c with rfl | hc
          · have hc' : c' = 0 := by
              rw [Nat.cast_zero, zero_mul] at habs
              exact_mod_cast (mul_eq_zero.1 habs.symm).resolve_right (zpow_pos_two e').ne'
            subst hc'
            exact .inr ⟨⟨_, eq_zero_of_isCanonical hx⟩, ⟨_, eq_zero_of_isCanonical hy⟩⟩
          · have hc' : 0 < c' := by
              refine Nat.pos_of_ne_zero fun hzero => ?_
              rw [hzero, Nat.cast_zero, zero_mul] at habs
              exact (mul_pos (by exact_mod_cast hc) (zpow_pos_two e)).ne' habs
            obtain ⟨rfl, rfl⟩ := (RoundsTo.self hc).unique hx.1 hy.1 (habs ▸ RoundsTo.self hc')
            have hsign : negative = negative' := by
              rw [Bool.eq_iff_iff, ← rational_neg_iff hc, hnumber, rational_neg_iff hc']
            exact .inl (by rw [hsign])
      | _ => exact hy.elim
  | _ => exact hx.elim

/-- The text of a number is a numeral, and reading it gives the number. -/
lemma exists_numeral_memberText {x : Binary64} (hx : x.IsCanonical) :
    ∃ n : Numeral, n.IsWritten ∧ n.chars = x.memberText.toList ∧ n.value.same x = true := by
  have plain : ∃ n : Numeral, n.IsWritten ∧ n.chars = (NumberLayout.plain.render x).toList ∧
      n.value.same x = true := by
    obtain ⟨n, hn, hchars, rfl, _⟩ :=
      NumberLayout.plain.exists_numeral (by simp [NumberLayout.plain]) hx
    exact ⟨n, hn, hchars, same_self_of_isFinite (isFinite_of_isCanonical hx)⟩
  unfold memberText
  split
  · rename_i i hi
    split
    · refine ⟨.ofInteger i, Numeral.isWritten_ofInteger i, Numeral.chars_ofInteger i, ?_⟩
      cases x with
      | finite negative c e =>
          obtain ⟨m, hm, rfl⟩ := integer?_spec hi
          rcases Nat.eq_zero_or_pos c with rfl | hc
          · have hm : m = 0 := by
              rw [Nat.cast_zero, zero_mul] at hm
              exact_mod_cast hm
            rw [hm, eq_zero_of_isCanonical hx]
            cases negative <;> decide
          · have hpos : 0 < m := by
              have : (0 : ℚ) < m := by
                rw [hm]
                exact mul_pos (by exact_mod_cast hc) (zpow_pos_two e)
              exact_mod_cast this
            have hnegative : (Numeral.ofInteger (signed negative m)).negative = negative := by
              cases negative <;> simp [Numeral.ofInteger, signed, hpos]
            have hmagnitude : (Numeral.ofInteger (signed negative m)).magnitude = c * 2 ^ e := by
              rw [Numeral.magnitude_ofInteger, ← hm]
              cases negative <;> simp [signed]
            have hvalue : (Numeral.ofInteger (signed negative m)).value = .finite negative c e := by
              rw [Numeral.value_eq (c := c) (e := e) (by rwa [hnegative])
                (fun hzero => absurd hzero hc.ne') (fun hc => hmagnitude ▸ RoundsTo.self hc),
                hnegative]
            rw [hvalue]
            exact same_self_of_isFinite rfl
      | _ => exact hx.elim
    · exact plain
  · exact plain

/-- **Two numbers have one text exactly if they are the same.** -/
theorem memberText_eq_iff {x y : Binary64} (hx : x.IsCanonical) (hy : y.IsCanonical) :
    x.memberText = y.memberText ↔ x.same y = true := by
  constructor
  · intro h
    obtain ⟨n, hn, hchars, hnx⟩ := exists_numeral_memberText hx
    obtain ⟨m, hm, hchars', hmy⟩ := exists_numeral_memberText hy
    obtain rfl : n = m := by
      have hread := Numeral.read?_chars hn
      rw [hchars, h, ← hchars', Numeral.read?_chars hm] at hread
      exact (Option.some.inj hread).symm
    rw [same_comm] at hnx
    exact same_trans hnx hmy
  · intro h
    rcases eq_or_zero_of_same hx hy h with rfl | ⟨⟨s, rfl⟩, t, rfl⟩
    · rfl
    · rw [memberText_zero, memberText_zero]

end Binary64

/-! ## Values that are read -/

namespace Yaml

open Json

lemma isCanonical_ofReal_of_real? {cs : List Char} {x : Binary64} (h : real? cs = some x) :
    (ofReal x).IsCanonical := by
  unfold ofReal
  split
  · rename_i hfinite
    unfold real? at h
    extract_lets s unsigned at h
    split_ifs at h
    · cases h
      cases hfinite
    · cases h
      cases hfinite
    · cases h
      cases hfinite
    · obtain ⟨h, _⟩ := Option.filter_eq_some_iff.1 h
      obtain ⟨n, _, rfl⟩ := Option.map_eq_some_iff.1 h
      exact Binary64.isCanonical_ofDecimal hfinite
  · trivial

lemma Atom.isCanonical_of_ofInteger? {n : ℤ} {a : Atom} (h : ofInteger? n = some (some a)) :
    a.toJson.IsCanonical := by
  unfold ofInteger? at h
  split at h
  · cases h
    assumption
  · split at h <;> cases h

lemma Atom.isCanonical_of_ofPlain? {s : String} {a : Atom} (h : ofPlain? s = some a) :
    a.toJson.IsCanonical := by
  unfold ofPlain? at h
  extract_lets cs at h
  split at h
  · cases h
    trivial
  · split at h
    · cases h
      trivial
    · split at h
      · rename_i atom hatom
        obtain ⟨n, _, hn⟩ := Option.bind_eq_some_iff.1 hatom
        exact isCanonical_of_ofInteger? (hn.trans (congrArg some h))
      · split at h
        · cases h
          trivial
        · split at h
          · cases h
            exact isCanonical_ofReal_of_real? ‹_›
          · cases h
            trivial

lemma Atom.isCanonical_of_ofScalar? {tag : Option String} {style : Style} {s : String} {a : Atom}
    (h : ofScalar? tag style s = some a) : a.toJson.IsCanonical := by
  unfold ofScalar? at h
  split at h
  · split at h
    · exact isCanonical_of_ofPlain? h
    · cases h
      trivial
  · split_ifs at h
    · obtain ⟨b, _, rfl⟩ := Option.map_eq_some_iff.1 h
      trivial
    · obtain ⟨n, _, hn⟩ := Option.bind_eq_some_iff.1 (Option.join_eq_some_iff.1 h)
      exact isCanonical_of_ofInteger? hn
    · obtain ⟨x, hx, rfl⟩ := Option.map_eq_some_iff.1 h
      exact isCanonical_ofReal_of_real? hx
    · cases h
      trivial
    · exact isCanonical_of_ofPlain? h
    · cases h
      trivial

lemma Atom.parts_toJson (a : Atom) : a.toJson.parts = [] := by
  cases a with
  | real x =>
      rw [toJson, ofReal]
      split <;> rfl
  | _ => rfl

namespace Tree

variable {reading : Reading}

mutual

/-- **A document is read as a value in its one form.** -/
theorem isCanonical_of_json? : ∀ {t : Tree} {v : Json}, json? reading t = some v →
    v.Everywhere IsCanonical
  | .scalar tag style s, v, h => by
      unfold json? at h
      split at h
      · cases h
      · obtain ⟨a, ha, rfl⟩ := Option.map_eq_some_iff.1 h
        have hcanonical := Atom.isCanonical_of_ofScalar? ha
        exact everywhere_iff.2 ⟨hcanonical, by simp [Atom.parts_toJson]⟩
  | .sequence tag items, v, h => by
      unfold json? at h
      split at h
      · cases h
      · obtain ⟨vs, hvs, rfl⟩ := Option.map_eq_some_iff.1 h
        exact everywhere_list.2 ⟨trivial, isCanonical_of_jsonItems? hvs⟩
  | .mapping tag entries, v, h => by
      unfold json? at h
      split at h
      · cases h
      · obtain ⟨es, hes, rfl⟩ := Option.map_eq_some_iff.1 h
        refine everywhere_iff.2 ⟨(Entries.ofList es).ascending, fun w hw => ?_⟩
        obtain ⟨e, he, rfl⟩ := List.mem_map.1 hw
        refine isCanonical_of_jsonEntries? hes e (Entries.mem_of_get?_ofList (a := e.2) ?_)
        exact lookupEntry_of_mem (nodup_of_ascending (Entries.ofList es).ascending) he
  | .beyond, v, h => by simp [json?] at h

theorem isCanonical_of_jsonItems? : ∀ {items : List Tree} {vs : List Json},
    jsonItems? reading items = some vs → ∀ v ∈ vs, v.Everywhere IsCanonical
  | [], vs, h => by
      cases h
      exact fun _ hv => absurd hv List.not_mem_nil
  | t :: rest, vs, h => by
      simp only [jsonItems?, Option.bind_eq_bind, Option.bind_eq_some_iff, Option.some.injEq] at h
      obtain ⟨v, hv, more, hmore, rfl⟩ := h
      exact List.forall_mem_cons.2 ⟨isCanonical_of_json? hv, isCanonical_of_jsonItems? hmore⟩

theorem isCanonical_of_jsonEntries? : ∀ {entries : List (Tree × Tree)}
    {es : List (String × Json)}, jsonEntries? reading entries = some es →
      ∀ e ∈ es, e.2.Everywhere IsCanonical
  | [], es, h => by
      cases h
      exact fun _ hv => absurd hv List.not_mem_nil
  | (k, t) :: rest, es, h => by
      simp only [jsonEntries?, Option.bind_eq_bind, Option.bind_eq_some_iff, Option.some.injEq] at h
      obtain ⟨key, _, v, hv, more, hmore, rfl⟩ := h
      exact List.forall_mem_cons.2 ⟨isCanonical_of_json? hv, isCanonical_of_jsonEntries? hmore⟩

end

end Tree

end Yaml

/-! ## Members of every kind -/

namespace Json

variable {v w : Json}

lemma memberText_of_number {x : Binary64} (hv : v.number? = some x) :
    memberText v = x.memberText := by
  rw [memberText, hv]

lemma memberText_of_none (hv : v.number? = none) : memberText v = v.compact := by
  rw [memberText, hv]

lemma isCanonical_ofInt {n : ℤ} (h : inIntegerRange n = true) : (Binary64.ofInt n).IsCanonical :=
  Binary64.isCanonical_ofRatio one_pos (Binary64.isFinite_ofInt h)

lemma isCanonical_of_number {x : Binary64} (hv : v.IsCanonical) (hx : v.number? = some x) :
    x.IsCanonical := by
  cases v with
  | int n =>
      cases hx
      exact isCanonical_ofInt hv
  | real x =>
      cases hx
      exact hv
  | _ => cases hx

/-- What is not a number does not begin like one. -/
lemma isNumberChar_of_head? (hv : v.number? = none) :
    ∀ c ∈ (compactChars v).head?, isNumberChar c = false := by
  cases v with
  | null =>
      rintro c ⟨⟩
      decide
  | bool b => cases b <;> rintro c ⟨⟩ <;> decide
  | text s =>
      rintro c ⟨⟩
      decide
  | list items =>
      rintro c ⟨⟩
      decide
  | object entries =>
      rintro c ⟨⟩
      decide
  | _ => cases hv

/-- A number and something else have different texts. -/
lemma memberText_ne {x : Binary64} (hv : v.IsCanonical) (hx : v.number? = some x)
    (hw : w.number? = none) : memberText v ≠ memberText w := by
  intro h
  obtain ⟨n, hn, hchars, _⟩ := Binary64.exists_numeral_memberText (isCanonical_of_number hv hx)
  rw [← memberText_of_number hx, h, memberText_of_none hw, compact, String.toList_ofList] at hchars
  obtain ⟨c, cs, hcons⟩ := List.exists_cons_of_ne_nil hn.chars_ne_nil
  have hnumber := isNumberChar_of_mem_chars hn c (hcons ▸ List.mem_cons_self)
  rw [isNumberChar_of_head? hw c (by rw [← hchars, hcons]; rfl)] at hnumber
  cases hnumber

/-- A value in its one form is the same as itself. -/
lemma same_self_of_isCanonical (hv : v.Everywhere IsCanonical) : v.same v = true := by
  induction v using induction_on_parts with
  | step v ih =>
      cases v with
      | null => exact isDefinite_null
      | bool b => exact isDefinite_bool b
      | int n => exact isDefinite_int n
      | real x => exact Binary64.same_self_of_isFinite (Binary64.isFinite_of_isCanonical hv.here)
      | text s => exact isDefinite_text s
      | list items => exact isDefinite_list fun u hu => ih u hu (hv.inside hu)
      | object entries =>
          refine isDefinite_object_iff.2 fun e he => ?_
          have hpart : e.2 ∈ (object entries).parts := List.mem_map.2 ⟨e, he, rfl⟩
          exact ih e.2 hpart (hv.inside hpart)

/-- Two members are one if they are the same number, or the same value in every detail. -/
def SameMember (v w : Json) : Prop := v.same w = true ∧ (v.number? = none → v = w)

/-- **The texts of two members are equal exactly if these are one member.** -/
theorem memberText_eq_iff (hv : v.Everywhere IsCanonical) (hw : w.Everywhere IsCanonical) :
    memberText v = memberText w ↔ v.SameMember w := by
  cases hx : v.number? with
  | some x =>
      rw [SameMember, same_iff_of_number hx]
      cases hy : w.number? with
      | some y =>
          rw [memberText_of_number hx, memberText_of_number hy, Binary64.memberText_eq_iff
            (isCanonical_of_number hv.here hx) (isCanonical_of_number hw.here hy)]
          simp [hx]
      | none =>
          have hne := memberText_ne hv.here hx hy
          simp [hne]
  | none =>
      constructor
      · intro h
        obtain hy : w.number? = none := by
          cases hy : w.number? with
          | some y => exact absurd h.symm (memberText_ne hw.here hy hx)
          | none => rfl
        rw [memberText_of_none hx, memberText_of_none hy] at h
        obtain rfl := eq_of_compact_eq hv hw h
        exact ⟨same_self_of_isCanonical hv, fun _ => rfl⟩
      · rintro ⟨_, heq⟩
        rw [heq hx]

/-! ## Numbers inside of members -/

/-- There is no number inside of a list or an object. -/
def HasNoInnerNumbers (v : Json) : Prop := ∀ u ∈ v.parts, u.Everywhere fun t => t.number? = none

lemma eq_of_forall₂ {α : Type} {R : α → α → Prop} {a b : List α} (h : List.Forall₂ R a b)
    (heq : ∀ x ∈ a, ∀ y, R x y → x = y) : a = b := by
  induction h with
  | nil => rfl
  | cons head tail ih =>
      rw [List.forall_mem_cons] at heq
      rw [heq.1 _ head, ih heq.2]

/-- Without numbers, only equal values are the same. -/
lemma eq_of_same (hv : v.Everywhere fun u => u.number? = none) (h : v.same w = true) : v = w := by
  induction v using induction_on_parts generalizing w with
  | step v ih =>
      cases v with
      | null => exact same_null_iff.1 h
      | bool b => exact same_bool_iff.1 h
      | text s => exact same_text_iff.1 h
      | int n => exact absurd hv.here (by simp [number?])
      | real x => exact absurd hv.here (by simp [number?])
      | list a =>
          obtain ⟨b, rfl, hab⟩ := same_list_iff.1 h
          exact congrArg list (eq_of_forall₂ (sameList_iff_forall₂.1 hab) fun u hu t hut =>
            ih u hu (hv.inside hu) hut)
      | object a =>
          obtain ⟨b, rfl, hab⟩ := same_object_iff.1 h
          refine congrArg object (eq_of_forall₂ (sameEntries_iff_forall₂.1 hab) ?_)
          rintro ⟨k, u⟩ hu ⟨l, t⟩ ⟨rfl, hut⟩
          have hpart : u ∈ (object a).parts := List.mem_map.2 ⟨(_, u), hu, rfl⟩
          rw [ih u hpart (hv.inside hpart) hut]

lemma sameMember_iff_same (hv : v.HasNoInnerNumbers) : v.SameMember w ↔ v.same w = true := by
  refine and_iff_left_of_imp fun h hnone => eq_of_same (everywhere_iff.2 ⟨hnone, hv⟩) h

/-! ## Enumerations -/

/-- Two lists are stored as one set exactly if each item of the one has the text of some item of the
other. -/
lemma ofList_map_eq_iff {α : Type} {f : α → String} {R : α → α → Prop} {a b : List α}
    (hR : ∀ u ∈ a, ∀ t ∈ b, f u = f t ↔ R u t) :
    Members.ofList (a.map f) = Members.ofList (b.map f) ↔
      (∀ u ∈ a, ∃ t ∈ b, R u t) ∧ ∀ t ∈ b, ∃ u ∈ a, R u t := by
  constructor
  · intro h
    have hmem (s : String) : s ∈ a.map f ↔ s ∈ b.map f := by
      rw [← Members.mem_ofList, h, Members.mem_ofList]
    constructor
    · intro u hu
      obtain ⟨t, ht, heq⟩ := List.mem_map.1 ((hmem (f u)).1 (List.mem_map_of_mem hu))
      exact ⟨t, ht, (hR u hu t ht).1 heq.symm⟩
    · intro t ht
      obtain ⟨u, hu, heq⟩ := List.mem_map.1 ((hmem (f t)).2 (List.mem_map_of_mem ht))
      exact ⟨u, hu, (hR u hu t ht).1 heq⟩
  · rintro ⟨forth, back⟩
    refine Members.ext_mem fun s => ?_
    rw [Members.mem_ofList, Members.mem_ofList, List.mem_map, List.mem_map]
    constructor
    · rintro ⟨u, hu, rfl⟩
      obtain ⟨t, ht, hut⟩ := forth u hu
      exact ⟨t, ht, ((hR u hu t ht).2 hut).symm⟩
    · rintro ⟨t, ht, rfl⟩
      obtain ⟨u, hu, hut⟩ := back t ht
      exact ⟨u, hu, (hR u hu t ht).2 hut⟩

/-- **What is one member of an enumeration.**  Two texts are equal exactly if they are texts of one
member, and two enumerations are stored as one set exactly if each member of the one is one with
some member of the other.  Where no number is inside of a list or an object, to be one member is to
be the same in the sense in which defaults and parameters are compared. -/
theorem memberText_eq_iff_same (hv : v.Everywhere IsCanonical) (hw : w.Everywhere IsCanonical) :
    (memberText v = memberText w ↔ v.SameMember w) ∧
    (v.HasNoInnerNumbers → (memberText v = memberText w ↔ v.same w = true)) ∧
    ∀ (k l : ScalarKeywords) (a b : List Json), k.allowed = some a → l.allowed = some b →
      (∀ u ∈ a ++ b, u.Everywhere IsCanonical) →
        (k.constraints.allowed = l.constraints.allowed ↔
          (∀ u ∈ a, ∃ t ∈ b, u.SameMember t) ∧ ∀ t ∈ b, ∃ u ∈ a, u.SameMember t) ∧
        ((∀ u ∈ a, u.HasNoInnerNumbers) →
          (k.constraints.allowed = l.constraints.allowed ↔
            (∀ u ∈ a, ∃ t ∈ b, u.same t = true) ∧ ∀ t ∈ b, ∃ u ∈ a, u.same t = true)) := by
  refine ⟨memberText_eq_iff hv hw, fun hinner => ?_, fun k l a b ha hb hcanonical => ?_⟩
  · rw [memberText_eq_iff hv hw, sameMember_iff_same hinner]
  have hstored : k.constraints.allowed = l.constraints.allowed ↔
      Members.ofList (a.map memberText) = Members.ofList (b.map memberText) := by
    simp [ScalarKeywords.constraints, ha, hb]
  have htext : ∀ u ∈ a, ∀ t ∈ b, memberText u = memberText t ↔ u.SameMember t := fun u hu t ht =>
    memberText_eq_iff (hcanonical u (List.mem_append_left b hu))
      (hcanonical t (List.mem_append_right a ht))
  refine ⟨hstored.trans (ofList_map_eq_iff htext), fun hinner => ?_⟩
  exact hstored.trans (ofList_map_eq_iff fun u hu t ht =>
    (htext u hu t ht).trans (sameMember_iff_same (hinner u hu)))

/-- An integer and a whole fraction, next to a text and to a list of texts. -/
theorem memberText_eq_iff_same_of_two_kinds :
    let v : Json := .int 1
    let w : Json := .real (.ofInt 1)
    let k : ScalarKeywords := { allowed := some [v, .text "1", .list [.text "1"]] }
    let l : ScalarKeywords := { allowed := some [.list [.text "1"], w, v, .text "1"] }
    v.Everywhere IsCanonical ∧ w.Everywhere IsCanonical ∧ v.HasNoInnerNumbers ∧
      memberText v = memberText w ∧ k.constraints.allowed = l.constraints.allowed := by
  intro v w k l
  have one : inIntegerRange 1 = true := rfl
  have hv : v.Everywhere IsCanonical := everywhere_int.2 one
  have hw : w.Everywhere IsCanonical := everywhere_real.2 (isCanonical_ofInt one)
  have hcanonical : ∀ u ∈ [v, .text "1", .list [.text "1"]] ++ [.list [.text "1"], w, v, .text "1"],
      u.Everywhere IsCanonical := by
    simp [hv, hw, IsCanonical]
  have hinner : ∀ u ∈ [v, .text "1", .list [.text "1"]], u.HasNoInnerNumbers := by
    simp [v, HasNoInnerNumbers, parts, number?]
  have hsame : v.same w = true := by decide +kernel
  obtain ⟨_, text_iff, allowed_iff⟩ := memberText_eq_iff_same hv hw
  refine ⟨hv, hw, hinner v (by simp), (text_iff (hinner v (by simp))).2 hsame, ?_⟩
  refine ((allowed_iff k l _ _ rfl rfl hcanonical).2 hinner).2 ?_
  decide +kernel

/-- **Numbers inside of a list are told apart by how they are written**, which defaults and
parameters are not, and then an enumeration that changes only so gives a change. -/
theorem memberText_ne_of_inner_number :
    let v : Json := .list [.int 1]
    let w : Json := .list [.real (.ofInt 1)]
    let keywords (member : Json) : ScalarKeywords := { allowed := some [member] }
    let total (member : Json) : Field :=
      .scalar { name := "total" } .long (keywords member).constraints
    v.Everywhere IsCanonical ∧ w.Everywhere IsCanonical ∧ v.same w = true ∧
      memberText v ≠ memberText w ∧
      ((Contract.single [total v]).compare (Contract.single [total w])).isEmpty = false := by
  intro v w keywords total
  have one : inIntegerRange 1 = true := rfl
  have hv : v.Everywhere IsCanonical := by simp [v, IsCanonical, one]
  have hw : w.Everywhere IsCanonical := by simp [w, IsCanonical, isCanonical_ofInt one]
  exact ⟨hv, hw, by decide +kernel, by decide +kernel, by decide +kernel⟩

end Json

end ContractDrift
