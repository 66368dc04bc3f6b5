import ContractDrift.Proofs.ShortestDecimal
import ContractDrift.Proofs.TypeText

/-!
# Numerals read back

The numerals that numbers are written as have one form: digits without a superfluous zero in front,
a point only if digits follow it, and an exponent only if it is not zero.  From its text such a
numeral is read back as it is, and the value nearest to it is the one that was written.

* `Numeral.chars`, `Numeral.IsWritten` — the text of a numeral, and the numerals of this form.
* **`Numeral.read?_chars`** — a numeral is read back from its text.
* `Numeral.magnitude` — the number that is written;
  `Numeral.value_eq` — a value with this number in its interval is the value of the numeral.
* `Numeral.ofInteger` — the numeral of an integer.
* **`NumberLayout.exists_numeral`** — what a value is written as is the text of a numeral of this
  form, and its value is the one written.
-/

namespace ContractDrift

namespace Numeral

/-! ## The text of a numeral -/

/-- The digits after the point, together with it. -/
def fractionChars (ds : List Char) : List Char := if ds = [] then [] else '.' :: ds

/-- An exponent with its sign written out; zero is left out. -/
def exponentChars (x : ℤ) : List Char :=
  if x = 0 then [] else 'e' :: (if x < 0 then '-' else '+') :: NumberLayout.digits x.natAbs

/-- The text without the sign of the numeral. -/
def unsigned (n : Numeral) : List Char :=
  n.whole ++ (fractionChars n.fraction ++ exponentChars n.exponent)

/-- The text of a numeral. -/
def chars (n : Numeral) : List Char := if n.negative then '-' :: n.unsigned else n.unsigned

/-- A numeral in the form in which numbers are written. -/
structure IsWritten (n : Numeral) : Prop where
  whole : n.whole ≠ []
  wholeDigits : ∀ c ∈ n.whole, c.isDigit = true
  fractionDigits : ∀ c ∈ n.fraction, c.isDigit = true
  least : n.whole = ['0'] ∨ n.whole.head? ≠ some '0'
  isFraction : n.isFraction = decide (n.fraction ≠ [] ∨ n.exponent ≠ 0)

variable {n : Numeral}

lemma IsWritten.exists_unsigned (h : n.IsWritten) :
    ∃ c rest, c.isDigit = true ∧ n.unsigned = c :: rest := by
  obtain ⟨c, rest, hwhole⟩ := List.exists_cons_of_ne_nil h.whole
  refine ⟨c, rest ++ (fractionChars n.fraction ++ exponentChars n.exponent), ?_, ?_⟩
  · exact h.wholeDigits c (hwhole ▸ List.mem_cons_self)
  · rw [unsigned, hwhole, List.cons_append]

/-! ## Its characters -/

/-- The characters of a numeral. -/
lemma IsWritten.mem_chars (h : n.IsWritten) {c : Char} (hc : c ∈ n.chars) :
    c.isDigit = true ∨ c ∈ ['-', '+', 'e'] ∨ c = '.' ∧ n.fraction ≠ [] := by
  have hunsigned : c ∈ n.unsigned →
      c.isDigit = true ∨ c ∈ ['-', '+', 'e'] ∨ c = '.' ∧ n.fraction ≠ [] := by
    intro hc
    rcases List.mem_append.1 hc with hc | hc
    · exact .inl (h.wholeDigits c hc)
    rcases List.mem_append.1 hc with hc | hc
    · unfold fractionChars at hc
      split at hc
      · exact absurd hc List.not_mem_nil
      · rename_i hne
        rcases List.mem_cons.1 hc with rfl | hc
        · exact .inr (.inr ⟨rfl, hne⟩)
        · exact .inl (h.fractionDigits c hc)
    · unfold exponentChars at hc
      split at hc
      · exact absurd hc List.not_mem_nil
      · rcases List.mem_cons.1 hc with rfl | hc
        · exact .inr (.inl (by decide))
        rcases List.mem_cons.1 hc with rfl | hc
        · refine .inr (.inl ?_)
          split <;> decide
        · exact .inl (Text.isDigit_of_mem_toDigits hc)
  unfold chars at hc
  split at hc
  · rcases List.mem_cons.1 hc with rfl | hc
    · exact .inr (.inl (by decide))
    · exact hunsigned hc
  · exact hunsigned hc

lemma IsWritten.chars_ne_nil (h : n.IsWritten) : n.chars ≠ [] := by
  obtain ⟨c, rest, _, hunsigned⟩ := h.exists_unsigned
  rw [chars, hunsigned]
  split <;> exact List.cons_ne_nil _ _

lemma IsWritten.head?_chars (h : n.IsWritten) : n.chars.head? ≠ some '+' := by
  obtain ⟨c, rest, hc, hunsigned⟩ := h.exists_unsigned
  rw [chars, hunsigned]
  split
  · simp
  · rintro ⟨⟩
    exact absurd hc (by decide)

/-- Of two parts, the second one has the last character, unless it is empty. -/
lemma forall_getLast?_append {P : Char → Prop} {ds es : List Char}
    (hds : ∀ c ∈ ds.getLast?, P c) (hes : ∀ c ∈ es.getLast?, P c) :
    ∀ c ∈ (ds ++ es).getLast?, P c := by
  intro c hc
  rw [List.getLast?_append] at hc
  rcases Option.or_eq_some_iff.1 hc with hc | ⟨_, hc⟩
  · exact hes c hc
  · exact hds c hc

/-- A numeral ends with a digit. -/
lemma IsWritten.isDigit_of_getLast? (h : n.IsWritten) :
    ∀ c ∈ n.chars.getLast?, c.isDigit = true := by
  have hfraction : ∀ c ∈ (fractionChars n.fraction).getLast?, c.isDigit = true := by
    unfold fractionChars
    split
    · rintro c ⟨⟩
    · rename_i hne
      intro c hc
      rw [← List.singleton_append, List.getLast?_append_of_ne_nil _ hne] at hc
      exact h.fractionDigits c (List.mem_of_getLast? hc)
  have hexponent : ∀ c ∈ (exponentChars n.exponent).getLast?, c.isDigit = true := by
    unfold exponentChars
    split
    · rintro c ⟨⟩
    · have hne : NumberLayout.digits n.exponent.natAbs ≠ [] := Nat.toDigits_ne_nil
      intro c hc
      rw [List.getLast?_cons_cons, ← List.singleton_append,
        List.getLast?_append_of_ne_nil _ hne] at hc
      exact Text.isDigit_of_mem_toDigits (List.mem_of_getLast? hc)
  have hunsigned : ∀ c ∈ n.unsigned.getLast?, c.isDigit = true :=
    forall_getLast?_append (fun c hc => h.wholeDigits c (List.mem_of_getLast? hc))
      (forall_getLast?_append hfraction hexponent)
  unfold chars
  split
  · obtain ⟨c, rest, _, hcons⟩ := h.exists_unsigned
    rwa [hcons, List.getLast?_cons_cons, ← hcons]
  · exact hunsigned

/-! ## Reading -/

/-- What is taken from a text ends where a character is not of its sort. -/
lemma span_append {p : Char → Bool} {cs rest : List Char} (hcs : ∀ c ∈ cs, p c = true)
    (hrest : ∀ c ∈ rest.head?, p c = false) :
    (cs ++ rest).takeWhile p = cs ∧ (cs ++ rest).dropWhile p = rest := by
  rw [List.takeWhile_append_of_pos hcs, List.dropWhile_append_of_pos hcs]
  cases rest with
  | nil => exact ⟨List.append_nil cs, rfl⟩
  | cons c rest =>
      have hc : ¬ p c = true := by simp [hrest c rfl]
      rw [List.takeWhile_cons_of_neg hc, List.dropWhile_cons_of_neg hc]
      exact ⟨List.append_nil cs, rfl⟩

lemma sign_chars (h : n.IsWritten) : sign n.chars = (n.negative, n.unsigned) := by
  unfold chars
  split
  · rename_i hnegative
    rw [hnegative, sign]
  · rename_i hnegative
    rw [Bool.not_eq_true] at hnegative
    obtain ⟨c, rest, hc, hunsigned⟩ := h.exists_unsigned
    rw [hnegative, hunsigned]
    unfold sign
    split
    · rename_i heq
      rw [(List.cons.inj heq).1] at hc
      exact absurd hc (by decide)
    · rename_i heq
      rw [(List.cons.inj heq).1] at hc
      exact absurd hc (by decide)
    · rfl

lemma exponent?_exponentChars (x : ℤ) :
    exponent? (exponentChars x) = some (if x = 0 then none else some x) := by
  unfold exponentChars
  split
  · rfl
  · have hdigits : (NumberLayout.digits x.natAbs).all Char.isDigit = true :=
      List.all_eq_true.2 fun c => Text.isDigit_of_mem_toDigits
    have hne : NumberLayout.digits x.natAbs ≠ [] := Nat.toDigits_ne_nil
    have hnatural : natural (NumberLayout.digits x.natAbs) = x.natAbs :=
      Nat.ofDigitChars_ten_toDigits
    rw [exponent?, if_pos (.inl rfl)]
    rcases lt_or_ge x 0 with hneg | hpos
    · simp only [if_pos hneg, sign]
      rw [if_pos ⟨hne, hdigits⟩, hnatural, Binary64.signed, if_pos rfl]
      congr 2
      omega
    · simp only [if_neg (not_lt.2 hpos), sign]
      rw [if_pos ⟨hne, hdigits⟩, hnatural, Binary64.signed, if_neg Bool.false_ne_true]
      congr 2
      omega

lemma head?_exponentChars {x : ℤ} : ∀ c ∈ (exponentChars x).head?, c = 'e' := by
  unfold exponentChars
  split <;> simp [eq_comm]

/-- **A numeral is read back from its text.** -/
theorem read?_chars (h : n.IsWritten) : read? n.chars = some n := by
  have hexponent : ∀ c ∈ (exponentChars n.exponent).head?, c.isDigit = false := by
    intro c hc
    rw [head?_exponentChars c hc]
    rfl
  have htail : ∀ c ∈ (fractionChars n.fraction ++ exponentChars n.exponent).head?,
      c.isDigit = false := by
    unfold fractionChars
    split
    · exact hexponent
    · rintro c ⟨⟩
      rfl
  have hisFraction := h.isFraction
  obtain ⟨htake, hdrop⟩ := span_append h.wholeDigits htail
  unfold read?
  rw [sign_chars h, unsigned]
  simp only
  rw [htake, hdrop]
  by_cases hfraction : n.fraction = []
  · rw [fractionChars, if_pos hfraction, List.nil_append]
    have hpoint : ∀ rest, exponentChars n.exponent ≠ '.' :: rest := by
      intro rest heq
      have := head?_exponentChars '.' (by rw [heq]; rfl)
      exact absurd this (by decide)
    split
    · rename_i heq
      exact absurd heq (hpoint _)
    · rw [if_neg fun hempty => h.whole hempty.1, exponent?_exponentChars]
      cases n
      simp only [ne_eq] at hisFraction hfraction
      subst hfraction
      simp only [hisFraction, Option.map_some]
      split <;> simp_all
  · rw [fractionChars, if_neg hfraction, List.cons_append]
    obtain ⟨htake, hdrop⟩ := span_append h.fractionDigits hexponent
    simp only
    rw [htake, hdrop, if_neg fun hempty => hfraction hempty.2, exponent?_exponentChars]
    cases n
    simp only [ne_eq] at hisFraction hfraction
    simp only [hisFraction, Option.map_some]
    split <;> simp_all

/-! ## The number of a numeral -/

/-- The number that is written, without its sign. -/
def magnitude (n : Numeral) : ℚ :=
  natural (n.whole ++ n.fraction) * 10 ^ (n.exponent - n.fraction.length)

/-- **The value of a numeral** is the one that has the number in its interval. -/
theorem value_eq {c : ℕ} {e : ℤ}
    (hcanonical : Binary64.IsCanonical (.finite n.negative c e))
    (hzero : c = 0 → n.magnitude = 0) (hpos : 0 < c → Binary64.RoundsTo n.magnitude c e) :
    n.value = .finite n.negative c e := by
  rcases Nat.eq_zero_or_pos c with rfl | hc
  · have hnatural : natural (n.whole ++ n.fraction) = 0 := by
      have hpow : (10 : ℚ) ^ (n.exponent - n.fraction.length) ≠ 0 := zpow_ne_zero _ (by norm_num)
      exact_mod_cast (mul_eq_zero.1 (hzero rfl)).resolve_right hpow
    have he : e = Binary64.leastExponent := hcanonical.1.full.resolve_left (by decide)
    rw [value, hnatural, Binary64.ofDecimal, if_pos (.inl rfl), Binary64.zero, he]
  · exact Binary64.ofDecimal_eq hc hcanonical (hpos hc)

lemma natural_append (ds es : List Char) :
    natural (ds ++ es) = natural ds * 10 ^ es.length + natural es := by
  change Nat.ofDigitChars 10 (ds ++ es) 0 = _
  rw [Nat.ofDigitChars_append, Nat.ofDigitChars_eq_ofDigitChars_zero, mul_comm]
  rfl

lemma natural_zeros (k : ℕ) : natural (List.replicate k '0') = 0 := by
  change Nat.ofDigitChars 10 _ 0 = _
  rw [Nat.ofDigitChars_replicate_zero, mul_zero]

/-- Only zero is written with a zero in front. -/
lemma head?_toDigits {m : ℕ} (hm : 0 < m) : (Nat.toDigits 10 m).head? ≠ some '0' := by
  induction m using Nat.strong_induction_on with
  | _ m ih =>
      rw [Nat.toDigits_eq_if (by decide)]
      split
      · rename_i hlt
        have digits : ∀ m < 10, 0 < m → [m.digitChar].head? ≠ some '0' := by decide
        exact digits m hlt hm
      · rename_i hge
        rw [List.head?_append_of_ne_nil _ Nat.toDigits_ne_nil]
        exact ih (m / 10) (by omega) (by omega)

/-- A numeral of this form from its parts. -/
def ofParts (negative : Bool) (whole fraction : List Char) (exponent : ℤ) : Numeral where
  negative := negative
  whole := whole
  fraction := fraction
  exponent := exponent
  isFraction := decide (fraction ≠ [] ∨ exponent ≠ 0)

/-! ## Integers -/

/-- The numeral of an integer. -/
def ofInteger (n : ℤ) : Numeral where
  negative := decide (n < 0)
  whole := NumberLayout.digits n.natAbs
  fraction := []
  exponent := 0
  isFraction := false

lemma least_digits (m : ℕ) :
    NumberLayout.digits m = ['0'] ∨ (NumberLayout.digits m).head? ≠ some '0' := by
  rcases Nat.eq_zero_or_pos m with rfl | hm
  · exact .inl rfl
  · exact .inr (head?_toDigits hm)

lemma isWritten_ofInteger (n : ℤ) : (ofInteger n).IsWritten where
  whole := Nat.toDigits_ne_nil
  wholeDigits _ := Text.isDigit_of_mem_toDigits
  fractionDigits _ hc := absurd hc List.not_mem_nil
  least := least_digits n.natAbs
  isFraction := rfl

lemma chars_ofInteger (n : ℤ) : (ofInteger n).chars = (toString n).toList := by
  have unsigned_eq : (ofInteger n).unsigned = NumberLayout.digits n.natAbs := List.append_nil _
  rw [chars, unsigned_eq]
  cases n with
  | ofNat m => exact (if_neg (by simp [ofInteger])).trans Nat.toList_repr.symm
  | negSucc m =>
      refine (if_pos (by simp [ofInteger])).trans ?_
      change _ = ("-" ++ (m + 1).repr).toList
      rw [String.toList_append, Nat.toList_repr]
      rfl

lemma magnitude_ofInteger (n : ℤ) : (ofInteger n).magnitude = n.natAbs := by
  have hnatural : natural ((ofInteger n).whole ++ (ofInteger n).fraction) = n.natAbs := by
    rw [ofInteger, List.append_nil]
    exact Nat.ofDigitChars_ten_toDigits
  rw [magnitude, hnatural]
  simp [ofInteger]

end Numeral

namespace NumberLayout

open Numeral

/-! ## The numerals of values -/

/-- The digits with a point among, before or after them. -/
lemma exists_withPoint (layout : NumberLayout) (negative : Bool) {ds : List Char} {d : ℤ}
    (hne : ds ≠ []) (hdigits : ∀ c ∈ ds, c.isDigit = true)
    (hleast : (ds = ['0'] ∧ d = 1) ∨ ds.head? ≠ some '0') :
    ∃ n : Numeral, n.IsWritten ∧ n.negative = negative ∧ n.unsigned = layout.withPoint ds d ∧
      n.magnitude = natural ds * 10 ^ (d - ds.length) ∧
        (layout.wholeFraction = true → n.isFraction = true) := by
  have hten : (10 : ℚ) ≠ 0 := by norm_num
  have zeros {k : ℕ} : ∀ c ∈ List.replicate k '0', c.isDigit = true := by
    intro c hc
    rw [List.eq_of_mem_replicate hc]
    rfl
  unfold withPoint
  simp only
  split
  · -- all digits are before the point
    rename_i hafter
    obtain ⟨k, hk⟩ := Int.eq_ofNat_of_zero_le (sub_nonneg.2 hafter)
    let zero := List.replicate layout.wholeFraction.toNat '0'
    refine ⟨ofParts negative (ds ++ List.replicate k '0') zero 0, ⟨?_, ?_, zeros, ?_, rfl⟩, rfl, ?_,
      ?_, ?_⟩
    · exact List.append_ne_nil_of_left_ne_nil hne _
    · exact List.forall_mem_append.2 ⟨hdigits, zeros⟩
    · rcases hleast with ⟨rfl, rfl⟩ | hhead
      · obtain rfl : k = 0 := by simpa using hk.symm
        exact .inl rfl
      · refine .inr ?_
        rwa [ofParts, List.head?_append_of_ne_nil _ hne]
    · rw [unsigned, ofParts, hk]
      simp only [exponentChars, ↓reduceIte, List.append_nil, Int.toNat_natCast]
      cases hwhole : layout.wholeFraction <;> simp [zero, hwhole, fractionChars]
    · rw [magnitude, ofParts, natural_append, natural_append, natural_zeros, natural_zeros, hk]
      simp only [List.length_replicate, add_zero, Nat.cast_mul, Nat.cast_pow, zero_sub, zpow_neg,
        zpow_natCast, Nat.cast_ofNat, zero]
      field_simp
    · intro hwhole
      simp [ofParts, zero, hwhole]
  · rename_i hbefore
    rw [not_le] at hbefore
    have hhead : ds.head? ≠ some '0' := by
      refine hleast.resolve_left ?_
      rintro ⟨rfl, rfl⟩
      exact absurd hbefore (lt_irrefl 1)
    split
    · -- the point is among the digits
      rename_i hpos
      obtain ⟨k, rfl⟩ := Int.eq_ofNat_of_zero_le hpos.le
      have hlt : k < ds.length := by exact_mod_cast hbefore
      have hfraction : ds.drop k ≠ [] := by
        rw [Ne, List.drop_eq_nil_iff]
        omega
      refine ⟨ofParts negative (ds.take k) (ds.drop k) 0, ⟨?_, ?_, ?_, ?_, rfl⟩, rfl, ?_, ?_, ?_⟩
      · rw [ofParts, Ne, List.take_eq_nil_iff]
        rintro (hk | hds)
        · omega
        · exact hne hds
      · exact fun c hc => hdigits c (List.mem_of_mem_take hc)
      · exact fun c hc => hdigits c (List.mem_of_mem_drop hc)
      · refine .inr ?_
        rwa [ofParts, List.head?_take, if_neg (by omega)]
      · simp [unsigned, ofParts, exponentChars, fractionChars, hfraction]
      · rw [magnitude, ofParts, List.take_append_drop, List.length_drop, Nat.cast_sub hlt.le]
        congr 2
        ring
      · intro _
        simp [ofParts, hfraction]
    · -- the point is before the digits
      rename_i hneg
      obtain ⟨k, hk⟩ := Int.eq_ofNat_of_zero_le (a := -d) (by omega)
      have hfraction : List.replicate k '0' ++ ds ≠ [] := List.append_ne_nil_of_right_ne_nil _ hne
      refine ⟨ofParts negative ['0'] (List.replicate k '0' ++ ds) 0,
        ⟨List.cons_ne_nil _ _, ?_, ?_, .inl rfl, rfl⟩, rfl, ?_, ?_, ?_⟩
      · exact zeros (k := 1)
      · exact List.forall_mem_append.2 ⟨zeros, hdigits⟩
      · rw [hk]
        simp [unsigned, ofParts, exponentChars, fractionChars, hne]
      · have hzeros : ['0'] ++ (List.replicate k '0' ++ ds) =
            List.replicate (k + 1) '0' ++ ds := rfl
        rw [magnitude, ofParts, hzeros, natural_append, natural_zeros, zero_mul, zero_add,
          List.length_append, List.length_replicate]
        congr 2
        push_cast
        omega
      · intro _
        simp [ofParts, hne]

/-- The digits with a point after the first one, and an exponent. -/
lemma exists_withExponent (negative : Bool) {ds : List Char} {x : ℤ}
    (hne : ds ≠ []) (hdigits : ∀ c ∈ ds, c.isDigit = true) (hhead : ds.head? ≠ some '0')
    (hx : x ≠ 0) :
    ∃ n : Numeral, n.IsWritten ∧ n.negative = negative ∧ n.unsigned = withExponent ds x ∧
      n.magnitude = natural ds * 10 ^ (x + 1 - ds.length) ∧ n.isFraction = true := by
  obtain ⟨c, rest, rfl⟩ := List.exists_cons_of_ne_nil hne
  rw [List.forall_mem_cons] at hdigits
  refine ⟨ofParts negative [c] rest x, ⟨List.cons_ne_nil _ _, ?_, hdigits.2, .inr hhead, rfl⟩, rfl,
    ?_, ?_, ?_⟩
  · simpa [ofParts] using hdigits.1
  · cases rest <;> simp [unsigned, ofParts, exponentChars, fractionChars, withExponent, hx]
  · rw [magnitude, ofParts, List.singleton_append, List.length_cons]
    congr 2
    push_cast
    ring
  · simp [ofParts, hx]

/-- The numeral of a positive decimal. -/
lemma exists_renderDecimal (layout : NumberLayout)
    (hlayout : ∀ bounds ∈ layout.positional, bounds.1 < 1 ∧ 1 ≤ bounds.2) (negative : Bool)
    {x : Binary64.Decimal} (hx : 0 < x.digits) :
    ∃ n : Numeral, n.IsWritten ∧ n.negative = negative ∧ n.unsigned = layout.renderDecimal x ∧
      n.magnitude = x.value ∧ (layout.wholeFraction = true → n.isFraction = true) := by
  have hne : digits x.digits ≠ [] := Nat.toDigits_ne_nil
  have hdigits : ∀ c ∈ digits x.digits, c.isDigit = true := fun _ => Text.isDigit_of_mem_toDigits
  have hhead : (digits x.digits).head? ≠ some '0' := head?_toDigits hx
  have hnatural : natural (digits x.digits) = x.digits := Nat.ofDigitChars_ten_toDigits
  have hvalue : (natural (digits x.digits) * 10 ^ ((digits x.digits).length + x.exponent -
      (digits x.digits).length) : ℚ) = x.value := by
    rw [hnatural, add_sub_cancel_left, Binary64.Decimal.value]
  rw [← hvalue]
  unfold renderDecimal
  simp only
  split
  · exact layout.exists_withPoint negative hne hdigits (.inr hhead)
  · rename_i least greatest hpositional
    have hone := hlayout _ hpositional
    split
    · exact layout.exists_withPoint negative hne hdigits (.inr hhead)
    · rename_i hexponent
      obtain ⟨n, hn, hnegative, hunsigned, hmagnitude, hfraction⟩ :=
        exists_withExponent negative hne hdigits hhead
          (x := (digits x.digits).length + x.exponent - 1) (by omega)
      refine ⟨n, hn, hnegative, hunsigned, ?_, fun _ => hfraction⟩
      rw [hmagnitude, sub_add_cancel]

/-- **What a value is written as is a numeral of the one form, and has this value.**  A format with
exponents has none for the numbers with one digit before the point. -/
theorem exists_numeral (layout : NumberLayout)
    (hlayout : ∀ bounds ∈ layout.positional, bounds.1 < 1 ∧ 1 ≤ bounds.2) {x : Binary64}
    (hx : x.IsCanonical) :
    ∃ n : Numeral, n.IsWritten ∧ n.chars = (layout.render x).toList ∧ n.value = x ∧
      (layout.wholeFraction = true → n.isFraction = true) := by
  cases x with
  | nan => exact hx.elim
  | infinite negative => exact hx.elim
  | finite negative c e =>
      -- it is enough to find a numeral for the text behind the sign
      suffices h : ∃ n : Numeral, n.IsWritten ∧ n.negative = negative ∧
          n.unsigned = (if c = 0 then layout.withPoint ['0'] 1
            else layout.renderDecimal (Binary64.shortest c e)) ∧
          (c = 0 → n.magnitude = 0) ∧
          (0 < c → n.magnitude = (Binary64.shortest c e).value) ∧
          (layout.wholeFraction = true → n.isFraction = true) by
        obtain ⟨n, hn, rfl, hunsigned, hzero, hpos, hwhole⟩ := h
        refine ⟨n, hn, ?_, ?_, hwhole⟩
        · rw [render, String.toList_ofList, chars, hunsigned]
        · exact value_eq hx hzero fun hc => hpos hc ▸ Binary64.roundsTo_shortest hc hx
      rcases Nat.eq_zero_or_pos c with rfl | hc
      · obtain ⟨n, hn, hnegative, hunsigned, hmagnitude, hwhole⟩ :=
          @exists_withPoint layout negative ['0'] 1 (List.cons_ne_nil _ _) (by simp)
            (.inl ⟨rfl, rfl⟩)
        refine ⟨n, hn, hnegative, hunsigned, fun _ => ?_, fun h => absurd h (lt_irrefl 0), hwhole⟩
        have hnatural : natural ['0'] = 0 := rfl
        rw [hmagnitude, hnatural, Nat.cast_zero, zero_mul]
      · rw [if_neg hc.ne']
        have hdigits : 0 < (Binary64.shortest c e).digits := by
          have hround := Binary64.roundsTo_shortest hc hx
          refine Nat.pos_of_ne_zero fun hzero => ?_
          have hpos := Binary64.zpow_pos_two (-1075)
          have hbounds := (hround.bounds hc hx).1
          rw [Binary64.Decimal.value, hzero, Nat.cast_zero, zero_mul] at hbounds
          exact absurd hbounds (not_le.2 hpos)
        obtain ⟨n, hn, hnegative, hunsigned, hmagnitude, hwhole⟩ :=
          layout.exists_renderDecimal hlayout negative hdigits
        exact ⟨n, hn, hnegative, hunsigned, fun h => absurd h hc.ne', fun _ => hmagnitude, hwhole⟩

end NumberLayout

end ContractDrift
