import ContractDrift.Json.Printer
import ContractDrift.Json.Reader
import ContractDrift.Proofs.ExactValues
import ContractDrift.Proofs.Numerals

/-!
# JSON text reads back

The text of a value in one line is read as this value.  A number is told from what follows it by the
characters of numbers, of which none stands after a number in a list or an object; a text in quotes
is read character by character; and the keys of an object, which are in order, are put back in this
order.  The induction is on the value, for any text after it.

* `Json.number_chars` — what a numeral is read as.
* `Json.readQuoted?_escapeChar` — what stands for one character is read as this character.
* `Json.IsCanonical` — the one form of a value, which all values that are read have.
* `Json.readValue?_compactChars` — a value is read back, with any text after it.
* **`Json.read?_compact`** — the text of a value is read as this value;
  **`Json.eq_of_compact_eq`** — so that two values have two texts.
-/

namespace ContractDrift

namespace Json

/-! ## Numbers -/

section Numbers

variable {n : Numeral}

lemma isNumberChar_of_mem_chars (h : n.IsWritten) : ∀ c ∈ n.chars, isNumberChar c = true := by
  intro c hc
  rcases h.mem_chars hc with hc | hc | ⟨rfl, _⟩
  · simp [isNumberChar, hc]
  · have : ∀ c ∈ ['-', '+', 'e'], isNumberChar c = true := by simp [isNumberChar]
    exact this c hc
  · decide

lemma wholeDigits_of_isWritten (h : n.IsWritten) : wholeDigits n.whole = true := by
  rcases h.least with hzero | hhead
  · rw [hzero]
    rfl
  · unfold wholeDigits
    split
    · rfl
    · rename_i heq
      exact absurd (congrArg List.head? heq) hhead
    · simp [h.whole]

/-- A numeral in the form of numbers is one that JSON allows. -/
lemma number_chars (h : n.IsWritten) :
    number n.chars =
      let whole := Binary64.signed n.negative (Numeral.natural n.whole)
      if !n.isFraction && inIntegerRange whole && !(n.negative && whole == 0) then
        some (.int whole)
      else if n.value.isFinite then some (.real n.value) else none := by
  have hallowed : ¬ (n.chars.head? = some '+' ∨ (!wholeDigits n.whole) = true ∨
      n.chars.getLast? = some '.' ∨ (n.chars.contains '.' = true ∧ n.fraction = [])) := by
    rintro (hplus | hwhole | hlast | ⟨hpoint, hfraction⟩)
    · exact h.head?_chars hplus
    · rw [wholeDigits_of_isWritten h] at hwhole
      cases hwhole
    · exact absurd (h.isDigit_of_getLast? '.' hlast) (by decide)
    · rcases h.mem_chars (List.contains_iff_mem.1 hpoint) with hdigit | hsign | ⟨_, hne⟩
      · exact absurd hdigit (by decide)
      · exact absurd hsign (by decide)
      · exact hne hfraction
  rw [number, Numeral.read?_chars h, Option.bind_eq_bind, Option.bind_some, if_neg hallowed]

lemma number_of_isFraction (h : n.IsWritten) (hfraction : n.isFraction = true)
    (hfinite : n.value.isFinite = true) : number n.chars = some (.real n.value) := by
  rw [number_chars h]
  simp only
  rw [if_neg (by simp [hfraction]), if_pos hfinite]

lemma number_ofInteger {i : ℤ} (hi : inIntegerRange i = true) :
    number (Numeral.ofInteger i).chars = some (.int i) := by
  have hwhole : Binary64.signed (Numeral.ofInteger i).negative
      (Numeral.natural (Numeral.ofInteger i).whole) = i := by
    have hnatural : Numeral.natural (Numeral.ofInteger i).whole = i.natAbs :=
      Nat.ofDigitChars_ten_toDigits
    rw [hnatural]
    simp only [Numeral.ofInteger, Binary64.signed, decide_eq_true_eq]
    split <;> omega
  rw [number_chars (Numeral.isWritten_ofInteger i), hwhole]
  refine if_pos ?_
  simp only [Numeral.ofInteger, hi, Bool.not_false, Bool.true_and, Bool.not_eq_true',
    Bool.and_eq_false_iff, decide_eq_false_iff_not, beq_eq_false_iff_ne]
  omega

end Numbers

/-! ## Texts -/

/-- The three ways to write a character: behind a backslash, by its number, and as it is. -/
lemma escapeChar_cases (c : Char) :
    (∃ d, escapeChar c = ['\\', d] ∧ d ≠ 'u' ∧ simpleEscape? d = some c) ∨
    (∃ a b, escapeChar c = ['\\', 'u', '0', '0', a, b] ∧
      hexNumber? ['0', '0', a, b] = some c.toNat ∧ c.toNat < 32) ∨
    escapeChar c = [c] ∧ c ≠ '"' ∧ c ≠ '\\' ∧ 32 ≤ c.toNat := by
  have named : ∀ {n : ℕ}, c.toNat = n → c = Char.ofNat n := fun h => h ▸ (Char.ofNat_toNat c).symm
  have control : ∀ n < 32,
      hexNumber? ['0', '0', hexDigit (n / 16), hexDigit (n % 16)] = some n := by decide
  unfold escapeChar
  by_cases hquote : c = '"'
  · rw [if_pos hquote, hquote]
    exact .inl ⟨_, rfl, by decide, rfl⟩
  rw [if_neg hquote]
  by_cases hback : c = '\\'
  · rw [if_pos hback, hback]
    exact .inl ⟨_, rfl, by decide, rfl⟩
  rw [if_neg hback]
  by_cases hline : c = '\n'
  · rw [if_pos hline, hline]
    exact .inl ⟨_, rfl, by decide, rfl⟩
  rw [if_neg hline]
  by_cases hreturn : c = '\r'
  · rw [if_pos hreturn, hreturn]
    exact .inl ⟨_, rfl, by decide, rfl⟩
  rw [if_neg hreturn]
  by_cases htab : c = '\t'
  · rw [if_pos htab, htab]
    exact .inl ⟨_, rfl, by decide, rfl⟩
  rw [if_neg htab]
  by_cases hbackspace : c.toNat = 8
  · rw [if_pos hbackspace, named hbackspace]
    exact .inl ⟨_, rfl, by decide, rfl⟩
  rw [if_neg hbackspace]
  by_cases hfeed : c.toNat = 12
  · rw [if_pos hfeed, named hfeed]
    exact .inl ⟨_, rfl, by decide, rfl⟩
  rw [if_neg hfeed]
  by_cases hcontrol : c.toNat < 32
  · rw [if_pos hcontrol]
    exact .inr (.inl ⟨_, _, rfl, control _ hcontrol, hcontrol⟩)
  rw [if_neg hcontrol]
  exact .inr (.inr ⟨rfl, hquote, hback, not_lt.1 hcontrol⟩)

/-- What stands for one character is read as this character. -/
lemma readQuoted?_escapeChar (c : Char) (fuel : ℕ) (rest : List Char) :
    readQuoted? (fuel + 1) (escapeChar c ++ rest) =
      (readQuoted? fuel rest).map fun p => (c :: p.1, p.2) := by
  obtain ⟨d, hc, hd, hsimple⟩ | ⟨a, b, hc, hnumber, hlt⟩ | ⟨hc, hquote, hback, hge⟩ :=
    escapeChar_cases c
  · rw [hc, List.cons_append, List.cons_append, List.nil_append, readQuoted?, hsimple]
    · cases readQuoted? fuel rest <;> rfl
    · exact fun _ _ _ _ _ hu => absurd hu hd
  · have hchar : char? c.toNat = some c := by
      rw [char?, if_pos ?_, Char.ofNat_toNat]
      exact .inl (by omega)
    simp only [hc, List.cons_append, List.nil_append, readQuoted?, hnumber, Option.bind_eq_bind,
      Option.bind_some, hchar]
    rw [if_neg (by omega)]
    cases readQuoted? fuel rest <;> rfl
  · rw [hc, List.singleton_append, readQuoted?, if_neg (by omega)]
    · cases readQuoted? fuel rest <;> rfl
    · exact hquote
    · exact fun _ _ _ _ _ hc => absurd hc hback
    · exact fun _ _ hc => absurd hc hback

/-- **A text is read back up to the quote after it.** -/
lemma readQuoted?_flatMap (s : List Char) {fuel : ℕ} (hfuel : s.length < fuel)
    (rest : List Char) :
    readQuoted? fuel (s.flatMap escapeChar ++ '"' :: rest) = some (s, rest) := by
  induction s generalizing fuel with
  | nil =>
      obtain ⟨fuel, rfl⟩ := Nat.exists_eq_add_one_of_ne_zero (Nat.ne_of_gt hfuel)
      rw [List.flatMap_nil, List.nil_append, readQuoted?]
  | cons c s ih =>
      obtain ⟨fuel, rfl⟩ := Nat.exists_eq_add_one_of_ne_zero (Nat.ne_zero_of_lt hfuel)
      rw [List.flatMap_cons, List.append_assoc, readQuoted?_escapeChar,
        ih (Nat.lt_of_succ_lt_succ hfuel), Option.map_some]

/-- No character is left out of a text in quotes. -/
lemma length_le_flatMap (s : List Char) : s.length ≤ (s.flatMap escapeChar).length := by
  induction s with
  | nil => exact le_rfl
  | cons c s ih =>
      have hc : 0 < (escapeChar c).length := by
        obtain ⟨d, hc, _⟩ | ⟨a, b, hc, _⟩ | ⟨hc, _⟩ := escapeChar_cases c <;> rw [hc] <;> simp
      rw [List.flatMap_cons, List.length_append, List.length_cons]
      omega

lemma readQuoted?_quote (s : String) (rest : List Char) :
    ∃ tail, quote s ++ rest = '"' :: tail ∧
      readQuoted? (tail.length + 2) tail = some (s.toList, rest) := by
  refine ⟨s.toList.flatMap escapeChar ++ '"' :: rest, by simp [quote], ?_⟩
  refine readQuoted?_flatMap s.toList ?_ rest
  have := length_le_flatMap s.toList
  rw [List.length_append]
  omega

/-! ## Values -/

/-- A value in its one form, apart from its parts: an integer has 64 bits, a fraction is the result
of a rounding, and an object has its keys in order. -/
def IsCanonical : Json → Prop
  | .int n => inIntegerRange n = true
  | .real x => x.IsCanonical
  | .object entries => (entries.map Prod.fst).Pairwise (· < ·)
  | _ => True

/-- A number is written as the numeral that is read as this number. -/
lemma exists_numeral {v : Json} (hv : v.IsCanonical) (hnumber : v.number?.isSome = true) :
    ∃ n : Numeral, n.IsWritten ∧ compactChars v = n.chars ∧ number n.chars = some v := by
  cases v with
  | int i =>
      refine ⟨.ofInteger i, Numeral.isWritten_ofInteger i, ?_, number_ofInteger hv⟩
      simp only [compactChars, atom, Numeral.chars, Numeral.ofInteger, decide_eq_true_eq]
      split <;> simp [Numeral.unsigned, Numeral.fractionChars, Numeral.exponentChars]
  | real x =>
      obtain ⟨n, hn, hchars, rfl, hfraction⟩ := NumberLayout.json.exists_numeral (by decide) hv
      exact ⟨n, hn, hchars.symm, number_of_isFraction hn (hfraction rfl)
        (Binary64.isFinite_of_isCanonical hv)⟩
  | _ => cases hnumber

/-- A character of a number is neither white space nor the beginning of another value. -/
lemma not_mem_of_isNumberChar {c : Char} (hc : isNumberChar c = true) :
    c ∉ [' ', '\n', '\r', '\t', 'n', 't', 'f', '"', '[', ']', '\x7b'] := by
  intro hmem
  have : ∀ c ∈ [' ', '\n', '\r', '\t', 'n', 't', 'f', '"', '[', ']', '\x7b'],
      isNumberChar c = false := by simp [isNumberChar]
  rw [this c hmem] at hc
  cases hc

/-- A text that begins with something else than white space. -/
lemma skipSpace_cons {c : Char} (hc : c ∉ [' ', '\n', '\r', '\t']) (cs : List Char) :
    skipSpace (c :: cs) = c :: cs := by
  refine List.dropWhile_cons_of_neg ?_
  simpa [and_assoc] using hc

/-- A number is read up to the first character that is none of a number. -/
lemma readValue?_of_number {v : Json} {rest : List Char} (hv : v.IsCanonical)
    (hnumber : v.number?.isSome = true) (fuel : ℕ)
    (hrest : ∀ c ∈ rest.head?, isNumberChar c = false) :
    readValue? (fuel + 1) (compactChars v ++ rest) = some (v, rest) := by
  obtain ⟨n, hn, hchars, hread⟩ := exists_numeral hv hnumber
  obtain ⟨c, cs, hcons⟩ := List.exists_cons_of_ne_nil hn.chars_ne_nil
  have hnumeral := isNumberChar_of_mem_chars hn
  obtain ⟨htake, hdrop⟩ := Numeral.span_append hnumeral hrest
  have hc := not_mem_of_isNumberChar (hnumeral c (hcons ▸ List.mem_cons_self))
  simp only [List.mem_cons, List.not_mem_nil, or_false, not_or] at hc
  rw [hchars, readValue?, hcons, List.cons_append, skipSpace_cons (by simp [hc])]
  split
  case h_7 =>
    rw [← List.cons_append, ← hcons, htake, hdrop, hread]
    rfl
  -- the other values begin with characters of their own
  all_goals
    rename_i heq
    simp [(List.cons.inj heq).1] at hc

/-- A value is written with at least one character, and begins with none that could be taken for
white space or for the end of a list. -/
lemma exists_compactChars {v : Json} (hv : v.IsCanonical) :
    ∃ c cs, compactChars v = c :: cs ∧ c ∉ [' ', '\n', '\r', '\t', ']'] := by
  cases hnumber : v.number? with
  | some x =>
      obtain ⟨n, hn, hchars, _⟩ := exists_numeral hv (Option.isSome_of_eq_some hnumber)
      obtain ⟨c, cs, hcons⟩ := List.exists_cons_of_ne_nil hn.chars_ne_nil
      refine ⟨c, cs, hchars.trans hcons, ?_⟩
      have hc := isNumberChar_of_mem_chars hn c (hcons ▸ List.mem_cons_self)
      have := not_mem_of_isNumberChar hc
      simp_all
  | none =>
      cases v with
      | null => exact ⟨_, _, rfl, by decide⟩
      | bool b => cases b <;> exact ⟨_, _, rfl, by decide⟩
      | text s => exact ⟨_, _, rfl, by decide⟩
      | list items => exact ⟨_, _, rfl, by decide⟩
      | object entries => exact ⟨_, _, rfl, by decide⟩
      | _ => cases hnumber

lemma exists_compactItems {v : Json} (hv : v.IsCanonical) (items : List Json) :
    ∃ c cs, compactItems (v :: items) = c :: cs ∧ c ∉ [' ', '\n', '\r', '\t', ']'] := by
  obtain ⟨c, cs, hcons, hc⟩ := exists_compactChars hv
  cases items with
  | nil => exact ⟨c, cs, hcons, hc⟩
  | cons w items => exact ⟨c, _, by rw [compactItems, hcons, List.cons_append]; simp, hc⟩

lemma exists_compactEntries (e : String × Json) (entries : List (String × Json)) :
    ∃ cs, compactEntries (e :: entries) = '"' :: cs := by
  cases entries with
  | nil => exact ⟨_, rfl⟩
  | cons f entries => exact ⟨_, rfl⟩

lemma isNumberChar_end : ∀ c ∈ [',', ']', '\x7d'], isNumberChar c = false := by
  simp [isNumberChar]

mutual

/-- **A value is read back from its text**, whatever follows after it, as long as this does not
begin like a number. -/
theorem readValue?_compactChars : ∀ {v : Json} {fuel : ℕ}, v.Everywhere IsCanonical →
    (compactChars v).length ≤ fuel → ∀ rest, (∀ c ∈ rest.head?, isNumberChar c = false) →
      readValue? fuel (compactChars v ++ rest) = some (v, rest)
  | v, 0, hv, hfuel, rest, _ => by
      obtain ⟨c, cs, hcons, _⟩ := exists_compactChars hv.here
      rw [hcons] at hfuel
      exact absurd hfuel (by simp)
  | .null, fuel + 1, _, _, rest, _ => rfl
  | .bool true, fuel + 1, _, _, rest, _ => rfl
  | .bool false, fuel + 1, _, _, rest, _ => rfl
  | .int i, fuel + 1, hv, _, rest, hrest => readValue?_of_number hv.here rfl fuel hrest
  | .real x, fuel + 1, hv, _, rest, hrest => readValue?_of_number hv.here rfl fuel hrest
  | .text s, fuel + 1, _, _, rest, _ => by
      obtain ⟨tail, hquote, hread⟩ := readQuoted?_quote s rest
      change readValue? (fuel + 1) (quote s ++ rest) = _
      rw [hquote, readValue?, skipSpace_cons (by decide)]
      simp only [hread, Option.bind_eq_bind, Option.bind_some, String.ofList_toList]
  | .list [], fuel + 1, _, _, rest, _ => rfl
  | .list (v :: items), fuel + 1, hv, hfuel, rest, _ => by
      have hparts := (everywhere_list.1 hv).2
      have hlength : (compactItems (v :: items)).length < fuel := by
        simp only [compactChars, List.length_append, List.length_cons, List.length_nil] at hfuel
        omega
      have hread := readItems?_compactItems (List.cons_ne_nil v items) hparts hlength rest
      obtain ⟨c, cs, hcons, hc⟩ := exists_compactItems (hparts v List.mem_cons_self).here items
      simp only [List.mem_cons, List.not_mem_nil, or_false, not_or] at hc
      have hchars : compactChars (.list (v :: items)) ++ rest =
          '[' :: c :: (cs ++ ']' :: rest) := by
        simp [compactChars, hcons]
      rw [hcons, List.cons_append] at hread
      rw [hchars, readValue?, skipSpace_cons (by decide)]
      simp only
      rw [skipSpace_cons (by simp [hc])]
      split
      · rename_i heq
        simp [(List.cons.inj heq).1] at hc
      · rw [hread]
        rfl
  | .object [], fuel + 1, _, _, rest, _ => rfl
  | .object (e :: entries), fuel + 1, hv, hfuel, rest, _ => by
      have hascending : ((e :: entries).map Prod.fst).Pairwise (· < ·) := hv.here
      have hparts : ∀ e' ∈ e :: entries, e'.2.Everywhere IsCanonical := fun e' he' =>
        hv.inside (List.mem_map.2 ⟨e', he', rfl⟩)
      have hlength : (compactEntries (e :: entries)).length < fuel := by
        simp only [compactChars, List.length_append, List.length_cons, List.length_nil] at hfuel
        omega
      have hread := readEntries?_compactEntries (List.cons_ne_nil e entries) hparts hlength rest
      obtain ⟨cs, hcons⟩ := exists_compactEntries e entries
      have hchars : compactChars (.object (e :: entries)) ++ rest =
          '\x7b' :: '"' :: (cs ++ '\x7d' :: rest) := by
        simp [compactChars, hcons]
      rw [hcons, List.cons_append] at hread
      rw [hchars, readValue?, skipSpace_cons (by decide)]
      simp only
      rw [skipSpace_cons (by decide)]
      change (readEntries? fuel ('"' :: _)).bind _ = _
      rw [hread, Option.bind_some, Entries.toList_ofList hascending]

theorem readItems?_compactItems : ∀ {items : List Json} {fuel : ℕ}, items ≠ [] →
    (∀ v ∈ items, v.Everywhere IsCanonical) → (compactItems items).length < fuel →
      ∀ rest, readItems? fuel (compactItems items ++ ']' :: rest) = some (items, rest)
  | [], _, hne, _, _, _ => absurd rfl hne
  | v :: items, 0, _, _, hfuel, _ => absurd hfuel (Nat.not_lt_zero _)
  | [v], fuel + 1, _, hv, hfuel, rest => by
      have hread := readValue?_compactChars (hv v List.mem_cons_self) (Nat.le_of_lt_succ hfuel)
        (']' :: rest) (by simp [isNumberChar_end])
      change readItems? (fuel + 1) (compactChars v ++ ']' :: rest) = _
      rw [readItems?, hread]
      rfl
  | v :: w :: items, fuel + 1, _, hv, hfuel, rest => by
      rw [List.forall_mem_cons] at hv
      simp only [compactItems, List.length_append, List.length_cons] at hfuel
      have hvalue : (compactChars v).length ≤ fuel := by omega
      have hitems : (compactItems (w :: items)).length < fuel := by omega
      have hread := readValue?_compactChars hv.1 hvalue
        (',' :: (compactItems (w :: items) ++ ']' :: rest)) (by simp [isNumberChar_end])
      have hmore := readItems?_compactItems (List.cons_ne_nil w items) hv.2 hitems rest
      have hchars : compactItems (v :: w :: items) ++ ']' :: rest =
          compactChars v ++ ',' :: (compactItems (w :: items) ++ ']' :: rest) := by
        simp [compactItems]
      rw [hchars, readItems?, hread]
      simp only [Option.bind_eq_bind, Option.bind_some]
      rw [skipSpace_cons (by decide)]
      simp only [hmore, Option.bind_some]

theorem readEntries?_compactEntries : ∀ {entries : List (String × Json)} {fuel : ℕ},
    entries ≠ [] → (∀ e ∈ entries, e.2.Everywhere IsCanonical) →
      (compactEntries entries).length < fuel →
        ∀ rest, readEntries? fuel (compactEntries entries ++ '\x7d' :: rest) = some (entries, rest)
  | [], _, hne, _, _, _ => absurd rfl hne
  | e :: entries, 0, _, _, hfuel, _ => absurd hfuel (Nat.not_lt_zero _)
  | [(k, v)], fuel + 1, _, hv, hfuel, rest => by
      simp only [compactEntries, List.length_append, List.length_cons] at hfuel
      have hvalue : (compactChars v).length ≤ fuel := by omega
      have hread := readValue?_compactChars (hv _ List.mem_cons_self) hvalue ('\x7d' :: rest)
        (by simp [isNumberChar_end])
      obtain ⟨tail, hquote, hkey⟩ := readQuoted?_quote k (':' :: (compactChars v ++ '\x7d' :: rest))
      have hchars : compactEntries [(k, v)] ++ '\x7d' :: rest = '"' :: tail := by
        rw [← hquote]
        simp [compactEntries]
      rw [hchars, readEntries?, skipSpace_cons (by decide)]
      simp only [hkey, Option.bind_eq_bind, Option.bind_some]
      rw [skipSpace_cons (by decide)]
      simp only [hread, Option.bind_some, String.ofList_toList]
      rw [skipSpace_cons (by decide)]
      rfl
  | (k, v) :: f :: entries, fuel + 1, _, hv, hfuel, rest => by
      rw [List.forall_mem_cons] at hv
      simp only [compactEntries, List.length_append, List.length_cons] at hfuel
      have hvalue : (compactChars v).length ≤ fuel := by omega
      have hentries : (compactEntries (f :: entries)).length < fuel := by omega
      have hread := readValue?_compactChars hv.1 hvalue
        (',' :: (compactEntries (f :: entries) ++ '\x7d' :: rest)) (by simp [isNumberChar_end])
      have hmore := readEntries?_compactEntries (List.cons_ne_nil f entries) hv.2 hentries rest
      obtain ⟨tail, hquote, hkey⟩ := readQuoted?_quote k
        (':' :: (compactChars v ++ ',' :: (compactEntries (f :: entries) ++ '\x7d' :: rest)))
      have hchars : compactEntries ((k, v) :: f :: entries) ++ '\x7d' :: rest = '"' :: tail := by
        rw [← hquote]
        simp [compactEntries]
      rw [hchars, readEntries?, skipSpace_cons (by decide)]
      simp only [hkey, Option.bind_eq_bind, Option.bind_some]
      rw [skipSpace_cons (by decide)]
      simp only [hread, Option.bind_some, String.ofList_toList]
      rw [skipSpace_cons (by decide)]
      simp only [hmore, Option.bind_some]

end

/-- **The text of a value is read as this value.** -/
theorem read?_compact {v : Json} (hv : v.Everywhere IsCanonical) : read? v.compact = some v := by
  have hlength : (compactChars v).length ≤ 2 * (compactChars v).length + 2 := by omega
  have hread := readValue?_compactChars hv hlength [] (by simp)
  rw [List.append_nil] at hread
  rw [read?, compact, String.toList_ofList]
  simp only [hread]
  rfl

/-- **Two values have two texts.** -/
theorem eq_of_compact_eq {v w : Json} (hv : v.Everywhere IsCanonical)
    (hw : w.Everywhere IsCanonical) (h : v.compact = w.compact) : v = w := by
  have hread := read?_compact hv
  rw [h, read?_compact hw] at hread
  exact (Option.some.inj hread).symm

end Json

end ContractDrift
