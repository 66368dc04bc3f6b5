import ContractDrift.Proofs.TypeText

/-!
# The spellings of data types

A type is spelled by one of its names, by the word for a decimal with one or two counts in brackets,
or by the word for an array with the spelling of an element in angle brackets.  Any part may have
blanks around it and be in any letter case, and a count may have a plus sign and zeros in front.

* `Text.WritesCount` — the texts of a count; **`Text.count?_trimChars_iff`** — these are read.
* `DataType.Spells` — the spellings of a type, one row for each way to spell it.
* `DataType.parseChars?_of_spells`, `DataType.spells_of_parseChars?` — a text is read as the type
  that it spells, and only spellings are read.
* **`DataType.parse?_spellings`** — all spellings of a type have one text, which is one of them, and
  spellings of two types have different texts.
-/

namespace ContractDrift

namespace Text

/-! ## Blanks around a text -/

/-- All characters are blanks. -/
def IsBlanks (cs : List Char) : Prop := ∀ c ∈ cs, isBlank c = true

lemma rdropWhile_append_blanks {b : List Char} (hb : IsBlanks b) (cs : List Char) :
    (cs ++ b).rdropWhile isBlank = cs.rdropWhile isBlank := by
  rw [List.rdropWhile, List.rdropWhile, List.reverse_append,
    List.dropWhile_append_of_pos fun c hc => hb c (List.mem_reverse.1 hc)]

/-- Blanks around a text are trimmed with it. -/
lemma trimChars_append_blanks {a b : List Char} (ha : IsBlanks a) (hb : IsBlanks b)
    (cs : List Char) : trimChars (a ++ cs ++ b) = trimChars cs := by
  rw [trimChars_eq_rdropWhile, trimChars_eq_rdropWhile, List.append_assoc,
    List.dropWhile_append_of_pos ha, List.dropWhile_append]
  split
  · rename_i h
    rw [List.isEmpty_iff.1 h, List.dropWhile_eq_nil_iff.2 hb]
  · exact rdropWhile_append_blanks hb _

/-- A text is what trimming leaves, with blanks around it. -/
lemma exists_blanks (cs : List Char) :
    ∃ a b, IsBlanks a ∧ IsBlanks b ∧ cs = a ++ trimChars cs ++ b := by
  refine ⟨cs.takeWhile isBlank, (cs.dropWhile isBlank).rtakeWhile isBlank,
    fun c => List.mem_takeWhile_imp, fun c => List.mem_rtakeWhile_imp, ?_⟩
  rw [List.append_assoc, trimChars_eq_rdropWhile, List.rdropWhile_append_rtakeWhile,
    List.takeWhile_append_dropWhile]

/-! ## Letter case -/

/-- A capital letter is one of twenty-six. -/
lemma forall_capital {P : Char → Prop} (h : ∀ i < 91, 65 ≤ i → P (Char.ofNat i)) {c : Char}
    (hc : 'A' ≤ c ∧ c ≤ 'Z') : P c := by
  have hlow : 65 ≤ c.toNat := hc.1
  have hhigh : c.toNat ≤ 90 := hc.2
  have := h c.toNat (by omega) hlow
  rwa [Char.ofNat_toNat] at this

lemma lowerChar_of_not_capital {c : Char} (hc : ¬ ('A' ≤ c ∧ c ≤ 'Z')) : lowerChar c = c :=
  if_neg hc

lemma isBlank_lowerChar (c : Char) : isBlank (lowerChar c) = isBlank c := by
  by_cases hc : 'A' ≤ c ∧ c ≤ 'Z'
  · exact forall_capital (P := fun c => isBlank (lowerChar c) = isBlank c) (by decide) hc
  · rw [lowerChar_of_not_capital hc]

lemma lowerChar_lowerChar (c : Char) : lowerChar (lowerChar c) = lowerChar c := by
  by_cases hc : 'A' ≤ c ∧ c ≤ 'Z'
  · exact forall_capital (P := fun c => lowerChar (lowerChar c) = lowerChar c) (by decide) hc
  · rw [lowerChar_of_not_capital hc, lowerChar_of_not_capital hc]

lemma map_lowerChar_map_lowerChar (cs : List Char) :
    (cs.map lowerChar).map lowerChar = cs.map lowerChar := by
  rw [List.map_map]
  exact List.map_congr_left fun c _ => lowerChar_lowerChar c

/-- Letter case does not matter for what is trimmed. -/
lemma trimChars_map_lowerChar (cs : List Char) :
    trimChars (cs.map lowerChar) = (trimChars cs).map lowerChar := by
  have hblank : isBlank ∘ lowerChar = isBlank := funext isBlank_lowerChar
  rw [trimChars, trimChars, List.dropWhile_map, hblank, ← List.map_reverse, List.dropWhile_map,
    hblank, List.map_reverse]

/-! ## Counts -/

/-- The text writes a count within 32 bits: digits, with zeros and a plus sign in front as it likes,
and blanks around them. -/
inductive WritesCount : List Char → ℕ → Prop
  | intro {a sign ds b : List Char} (ha : IsBlanks a) (hsign : sign = [] ∨ sign = ['+'])
      (hne : ds ≠ []) (hds : ∀ c ∈ ds, c.isDigit = true)
      (hlimit : Nat.ofDigitChars 10 ds 0 ≤ limit32) (hb : IsBlanks b) :
      WritesCount (a ++ (sign ++ ds) ++ b) (Nat.ofDigitChars 10 ds 0)

lemma isDigit_of_natural? {cs : List Char} {n : ℕ} (h : natural? 10 cs = some n) :
    cs ≠ [] ∧ ∀ c ∈ cs, c.isDigit = true := by
  rw [natural?] at h
  split at h
  · cases h
  · rename_i hne
    refine ⟨hne, ?_⟩
    clear hne
    generalize 0 = k at h
    induction cs generalizing k with
    | nil => simp
    | cons c rest ih =>
        rw [List.foldlM_cons] at h
        obtain ⟨m, hm, h⟩ := Option.bind_eq_some_iff.1 h
        refine List.forall_mem_cons.2 ⟨?_, ih m h⟩
        -- a letter stands for ten or more
        have hdigit : '0' ≤ c ∧ c ≤ '9' := by
          by_contra hc
          simp only [if_neg hc, Option.ite_none_right_eq_some] at hm
          split_ifs at hm with hlower hupper
          · have : 97 ≤ c.toNat := hlower.1
            omega
          · have : 65 ≤ c.toNat := hupper.1
            omega
          · omega
        exact Char.isDigit_iff_toNat.2 hdigit

/-- **A count is read exactly from the texts that write it.** -/
theorem count?_trimChars_iff {cs : List Char} {n : ℕ} :
    count? limit32 (trimChars cs) = some n ↔ WritesCount cs n := by
  constructor
  · intro h
    obtain ⟨a, b, ha, hb, hcs⟩ := exists_blanks cs
    generalize trimChars cs = word at h hcs
    subst hcs
    obtain ⟨hn, hlimit⟩ := Option.filter_eq_some_iff.1 h
    split at hn
    · rename_i ds
      obtain ⟨hne, hds⟩ := isDigit_of_natural? hn
      rw [natural?_eq hne hds] at hn
      cases hn
      exact .intro ha (.inr rfl) hne hds (by simpa using hlimit) hb
    · obtain ⟨hne, hds⟩ := isDigit_of_natural? hn
      rw [natural?_eq hne hds] at hn
      cases hn
      exact .intro ha (.inl rfl) hne hds (by simpa using hlimit) hb
  · rintro ⟨ha, hsign, hne, hds, hlimit, hb⟩
    have hplain : ∀ sign, sign = [] ∨ sign = ['+'] → isPlain sign = true := by
      rintro _ (rfl | rfl) <;> rfl
    rw [trimChars_append_blanks ha hb,
      trimChars_of_isPlain (isPlain_append (hplain _ hsign) (isPlain_of_isDigit hds))]
    have hcount := count?_of_isDigit hne hds hlimit
    rcases hsign with rfl | rfl
    · exact hcount
    · simpa [count?, natural?_eq hne hds] using hlimit

/-! ## Separators -/

/-- The parts of a text make up the text. -/
lemma intercalate_fields (separator : Char) (cs : List Char) :
    [separator].intercalate (fields separator cs) = cs := by
  induction cs with
  | nil => rfl
  | cons c rest ih =>
      unfold fields
      split
      · rename_i h
        cases hrest : fields separator rest with
        | nil => exact absurd hrest (fields_ne_nil rest)
        | cons word words =>
            rw [hrest] at ih
            rw [List.intercalate_cons_cons, ih, h]
            rfl
      · split
        · rename_i hrest
          exact absurd hrest (fields_ne_nil rest)
        · rename_i word words hrest
          rw [hrest] at ih
          cases words with
          | nil => simpa using ih
          | cons w ws =>
              rw [List.intercalate_cons_cons] at ih ⊢
              rw [← ih]
              rfl

lemma WritesCount.not_mem {cs : List Char} {n : ℕ} (h : WritesCount cs n) {c : Char}
    (hblank : isBlank c = false) (hplus : c ≠ '+') (hdigit : c.isDigit = false) : c ∉ cs := by
  obtain ⟨ha, hsign, _, hds, _, hb⟩ := h
  intro hc
  simp only [List.mem_append] at hc
  rcases hc with (hc | hc | hc) | hc
  · simp [ha c hc] at hblank
  · rcases hsign with rfl | rfl
    · exact absurd hc List.not_mem_nil
    · exact hplus (List.mem_singleton.1 hc)
  · simp [hds c hc] at hdigit
  · simp [hb c hc] at hblank

/-- Letter case does not matter in the text of a count. -/
lemma WritesCount.map_lowerChar {cs : List Char} {n : ℕ} (h : WritesCount cs n) :
    cs.map lowerChar = cs := by
  refine (List.map_congr_left fun c hc => lowerChar_of_not_capital fun hcapital => ?_).trans
    (List.map_id' cs)
  obtain ⟨hblank, hplus, hdigit⟩ := forall_capital
    (P := fun c => isBlank c = false ∧ c ≠ '+' ∧ c.isDigit = false) (by decide) hcapital
  exact h.not_mem hblank hplus hdigit hc

end Text

/-! ## Spellings -/

namespace DataType

open Text (IsBlanks WritesCount lowerChar trimChars)

/-- The spellings of a type. -/
inductive Spells : List Char → DataType → Prop
  /-- A name of the type. -/
  | name {w : String} {t : DataType} (h : named? w = some t) : Spells w.toList t
  /-- A decimal by its precision. -/
  | decimal {lead : String} {a : List Char} {p : ℕ} (hlead : lead = "decimal(" ∨ lead = "numeric(")
      (hp : WritesCount a p) : Spells (lead.toList ++ a ++ [')']) (.decimal (some p) none)
  /-- A decimal by its precision and its scale. -/
  | decimalWithScale {lead : String} {a b : List Char} {p s : ℕ}
      (hlead : lead = "decimal(" ∨ lead = "numeric(") (hp : WritesCount a p)
      (hs : WritesCount b s) :
      Spells (lead.toList ++ (a ++ ',' :: b) ++ [')']) (.decimal (some p) (some s))
  /-- An array by its elements. -/
  | arrayOf {cs : List Char} {t : DataType} (h : Spells cs t) :
      Spells ("array<".toList ++ cs ++ ['>']) (.arrayOf t)
  /-- Blanks may stand around a spelling. -/
  | blanks {a cs b : List Char} {t : DataType} (ha : IsBlanks a) (h : Spells cs t)
      (hb : IsBlanks b) : Spells (a ++ cs ++ b) t
  /-- Letter case does not matter. -/
  | anyCase {cs : List Char} {t : DataType} (h : Spells (cs.map lowerChar) t) : Spells cs t

/-! ### The arguments of a decimal -/

lemma decimalArguments?_eq_some_iff {cs arguments : List Char} :
    decimalArguments? cs = some arguments ↔
      ∃ lead, (lead = "decimal(" ∨ lead = "numeric(") ∧ cs = lead.toList ++ arguments ++ [')'] := by
  constructor
  · intro h
    unfold decimalArguments? at h
    split at h
    · rename_i rest hrest
      rw [Text.dropLead?_eq_some_iff] at hrest
      rw [Text.dropLast?_eq_some_iff] at h
      exact ⟨_, .inl rfl, by rw [hrest, h, List.append_assoc]⟩
    · exact ⟨_, .inr rfl, Text.between?_eq_some_iff.1 h⟩
  · rintro ⟨_, rfl | rfl, rfl⟩
    · exact decimalArguments?_append arguments
    · exact Text.between?_eq_some_iff.2 rfl

/-- A decimal has one count or two. -/
lemma decimal?_eq_some_iff {arguments : List Char} {t : DataType} :
    decimal? arguments = some t ↔
      (∃ p, WritesCount arguments p ∧ t = .decimal (some p) none) ∨
      ∃ a b p s, arguments = a ++ ',' :: b ∧ WritesCount a p ∧ WritesCount b s ∧
        t = .decimal (some p) (some s) := by
  have comma : ∀ {a n}, WritesCount a n → ',' ∉ a := fun h =>
    h.not_mem (by decide) (by decide) (by decide)
  constructor
  · intro h
    have parts := Text.intercalate_fields ',' arguments
    unfold decimal? at h
    split at h
    · rename_i p hfields
      obtain ⟨a, hfields, hp⟩ := List.map_eq_singleton_iff.1 hfields
      rw [hfields] at parts
      cases h
      exact .inl ⟨p, by simpa [← parts] using Text.count?_trimChars_iff.1 hp, rfl⟩
    · rename_i p s hfields
      obtain ⟨a, rest, hfields, hp, hrest⟩ := List.map_eq_cons_iff.1 hfields
      obtain ⟨b, rfl, hs⟩ := List.map_eq_singleton_iff.1 hrest
      rw [hfields] at parts
      cases h
      refine .inr ⟨a, b, p, s, ?_, Text.count?_trimChars_iff.1 hp, Text.count?_trimChars_iff.1 hs,
        rfl⟩
      rw [← parts, List.intercalate_cons_cons]
      simp
    · cases h
  · rintro (⟨p, hp, rfl⟩ | ⟨a, b, p, s, rfl, hp, hs, rfl⟩)
    · simp [decimal?, Text.fields_of_not_mem (comma hp), Text.count?_trimChars_iff.2 hp]
    · simp [decimal?, Text.fields_append (comma hp), Text.fields_of_not_mem (comma hs),
        Text.count?_trimChars_iff.2 hp, Text.count?_trimChars_iff.2 hs]

/-! ### Reading spellings -/

/-- Texts with the same word are read alike. -/
lemma parseChars?_congr {cs ds : List Char}
    (h : (trimChars cs).map lowerChar = (trimChars ds).map lowerChar) :
    parseChars? cs = parseChars? ds := by
  rw [parseChars?_of_word_eq h, parseChars?_of_word_eq rfl]

lemma parseChars?_map_lowerChar (cs : List Char) :
    parseChars? (cs.map lowerChar) = parseChars? cs := by
  refine parseChars?_congr ?_
  rw [Text.trimChars_map_lowerChar, Text.map_lowerChar_map_lowerChar]

/-- Nothing is trimmed between characters that are no blanks. -/
lemma trimChars_of_enclosed {lead cs : List Char} {last : Char}
    (hlead : ∃ c rest, lead = c :: rest ∧ Text.isBlank c = false)
    (hlast : Text.isBlank last = false) :
    trimChars (lead ++ cs ++ [last]) = lead ++ cs ++ [last] := by
  obtain ⟨c, rest, rfl, hc⟩ := hlead
  simp [trimChars, hc, hlast]

/-- A decimal with arguments is read by its arguments. -/
lemma parseChars?_of_lead {lead : String} {arguments : List Char}
    (hlead : lead = "decimal(" ∨ lead = "numeric(")
    (hcase : arguments.map lowerChar = arguments) :
    parseChars? (lead.toList ++ arguments ++ [')']) = decimal? arguments := by
  have harguments : decimalArguments? (lead.toList ++ arguments ++ [')']) = some arguments :=
    decimalArguments?_eq_some_iff.2 ⟨lead, hlead, rfl⟩
  have hword : (trimChars (lead.toList ++ arguments ++ [')'])).map lowerChar =
      lead.toList ++ arguments ++ [')'] := by
    have hfirst : ∃ c rest, lead.toList = c :: rest ∧ Text.isBlank c = false := by
      rcases hlead with rfl | rfl
      · exact ⟨'d', _, rfl, by decide⟩
      · exact ⟨'n', _, rfl, by decide⟩
    have hlower : lead.toList.map lowerChar = lead.toList := by
      rcases hlead with rfl | rfl <;> rfl
    rw [trimChars_of_enclosed hfirst (by decide), List.map_append, List.map_append, hlower, hcase]
    rfl
  rcases hlead with rfl | rfl
  · exact parseChars?_of_arguments hword rfl harguments
  · exact parseChars?_of_arguments hword rfl harguments

/-- **A spelling of a type is read as this type.** -/
theorem parseChars?_of_spells {cs : List Char} {t : DataType} (h : Spells cs t) :
    parseChars? cs = some t := by
  induction h with
  | name h =>
      unfold named? at h
      split at h <;> cases h <;> exact parseChars?_of_bare (word_of_isPlain rfl) rfl rfl
  | decimal hlead hp =>
      rw [parseChars?_of_lead hlead hp.map_lowerChar]
      exact decimal?_eq_some_iff.2 (.inl ⟨_, hp, rfl⟩)
  | decimalWithScale hlead hp hs =>
      have hcase : ∀ {a b : List Char}, a.map lowerChar = a → b.map lowerChar = b →
          (a ++ ',' :: b).map lowerChar = a ++ ',' :: b := by
        intro a b ha hb
        rw [List.map_append, List.map_cons, ha, hb]
        rfl
      rw [parseChars?_of_lead hlead (hcase hp.map_lowerChar hs.map_lowerChar)]
      exact decimal?_eq_some_iff.2 (.inr ⟨_, _, _, _, rfl, hp, hs, rfl⟩)
  | @arrayOf cs t _ ih =>
      have hword : (trimChars ("array<".toList ++ cs ++ ['>'])).map lowerChar =
          "array<".toList ++ cs.map lowerChar ++ ['>'] := by
        have hfirst : ∃ c rest, "array<".toList = c :: rest ∧ Text.isBlank c = false :=
          ⟨'a', _, rfl, by decide⟩
        rw [trimChars_of_enclosed hfirst (by decide), List.map_append, List.map_append]
        rfl
      rw [parseChars?_of_enclosed hword (Text.between?_eq_some_iff.2 rfl),
        parseChars?_map_lowerChar, ih]
      rfl
  | @blanks a cs b t ha _ hb ih =>
      have hword : (trimChars (a ++ cs ++ b)).map lowerChar = (trimChars cs).map lowerChar := by
        rw [Text.trimChars_append_blanks ha hb]
      rw [parseChars?_congr hword, ih]
  | anyCase _ ih => rwa [parseChars?_map_lowerChar] at ih

/-- A text spells what its word spells. -/
lemma Spells.of_word {cs : List Char} {t : DataType}
    (h : Spells ((trimChars cs).map lowerChar) t) : Spells cs t := by
  obtain ⟨a, b, ha, hb, hcs⟩ := Text.exists_blanks cs
  rw [hcs]
  exact .blanks ha (.anyCase h) hb

/-- **Only spellings are read.** -/
theorem spells_of_parseChars? (cs : List Char) :
    ∀ {t : DataType}, parseChars? cs = some t → Spells cs t := by
  fun_induction parseChars? cs with
  | case1 =>
      rename_i word element henclosed ih
      intro t h
      obtain ⟨e, he, rfl⟩ := Option.map_eq_some_iff.1 h
      have hword : word = "array<".toList ++ element ++ ['>'] :=
        Text.between?_eq_some_iff.1 henclosed
      have hspells : Spells word (.arrayOf e) := hword ▸ .arrayOf (ih he)
      exact .of_word hspells
  | case2 =>
      rename_i word _ arguments harguments
      intro t h
      obtain ⟨lead, hlead, hword⟩ := decimalArguments?_eq_some_iff.1 harguments
      have hspells : Spells word t := by
        rw [hword]
        rcases decimal?_eq_some_iff.1 h with ⟨p, hp, rfl⟩ | ⟨a, b, p, s, rfl, hp, hs, rfl⟩
        · exact .decimal hlead hp
        · exact .decimalWithScale hlead hp hs
      exact .of_word hspells
  | case3 =>
      rename_i word _ _
      intro t h
      have hspells : Spells word t := by
        rw [← String.toList_ofList (l := word)]
        exact .name h
      exact .of_word hspells

lemma parse?_eq_some_iff {s : String} {t : DataType} : parse? s = some t ↔ Spells s.toList t :=
  ⟨spells_of_parseChars? _, parseChars?_of_spells⟩

/-- **The spellings of a type have one text.**  A text is accepted exactly if it spells a type, by
any of its names, in any letter case, with blanks around any part, and with a plus sign and zeros in
front of counts, at any depth of arrays.  The text of the type is then a spelling of the same type,
so two accepted texts have the same canonical text exactly if they spell the same type. -/
theorem parse?_spellings :
    (∀ s t, parse? s = some t ↔ Spells s.toList t) ∧
    (∀ s t, parse? s = some t → parse? t.text = some t) ∧
    ∀ s s' t t', parse? s = some t → parse? s' = some t' → (t.text = t'.text ↔ t = t') := by
  refine ⟨fun _ _ => parse?_eq_some_iff, fun _ _ => parse?_text, ?_⟩
  intro s s' t t' h h'
  refine ⟨fun htext => ?_, congrArg text⟩
  have hboth := (parse?_text h).symm.trans (htext ▸ parse?_text h')
  exact Option.some.inj hboth

/-- An array of decimals in capitals, with blanks, a plus sign and zeros. -/
theorem parse?_spellings_of_numeric :
    parse? " ARRAY< Numeric( +007,02 )> " = some (.arrayOf (.decimal (some 7) (some 2))) ∧
      (arrayOf (.decimal (some 7) (some 2))).text = "array<decimal(7,2)>" ∧
      parse? "array<decimal(7,2)>" = some (.arrayOf (.decimal (some 7) (some 2))) := by
  have hread : parse? " ARRAY< Numeric( +007,02 )> " =
      some (.arrayOf (.decimal (some 7) (some 2))) := by decide +kernel
  obtain ⟨_, roundTrip, _⟩ := parse?_spellings
  exact ⟨hread, by decide +kernel, roundTrip _ _ hread⟩

end DataType

end ContractDrift
