import ContractDrift.Contract.DataType
import ContractDrift.Contract.Server
import Mathlib.Data.List.DropRight
import Mathlib.Data.Nat.Notation

/-!
# The texts of data types and of servers

A data type is spelled in many ways: by other names, in capitals, with blanks around it or around
its arguments, with plus signs and leading zeros.  It has one text, and this text is a spelling of
it.  Not all types are spelled: an argument has 32 bits, and only a decimal with a precision has a
scale.

The text is read back since nothing in it is changed by reading: it has neither blanks nor capitals
(`Text.isPlain`), and the digits of a count are read as this count (`Text.count?_toDigits`).

* `DataType.IsSpelled` — the types that have a spelling.
* **`DataType.parse?_text`** — what a text spells is spelled by the text of the type.
* **`ServerType.parse_name`** — the same for the platforms of servers.
-/

namespace ContractDrift

namespace Text

/-! ## Plain characters -/

/-- Whether no character is a blank or a capital letter. -/
def isPlain (cs : List Char) : Bool := cs.all fun c => !isBlank c && lowerChar c == c

lemma isPlain_iff {cs : List Char} :
    isPlain cs = true ↔ ∀ c ∈ cs, isBlank c = false ∧ lowerChar c = c := by
  simp [isPlain]

lemma isPlain_append {cs ds : List Char} (hc : isPlain cs = true) (hd : isPlain ds = true) :
    isPlain (cs ++ ds) = true := by
  rw [isPlain, List.all_append, Bool.and_eq_true]
  exact ⟨hc, hd⟩

lemma trimChars_of_isPlain {cs : List Char} (h : isPlain cs = true) : trimChars cs = cs := by
  rw [isPlain_iff] at h
  have keep : ∀ {l : List Char}, (∀ c ∈ l, isBlank c = false) → l.dropWhile isBlank = l := by
    intro l hl
    cases l with
    | nil => rfl
    | cons c rest => simp [hl c List.mem_cons_self]
  have hfront := keep fun c hc => (h c hc).1
  have hback := keep (l := cs.reverse) fun c hc => (h c (List.mem_reverse.1 hc)).1
  rw [trimChars, hfront, hback, List.reverse_reverse]

lemma map_lowerChar_of_isPlain {cs : List Char} (h : isPlain cs = true) :
    cs.map lowerChar = cs := by
  rw [isPlain_iff] at h
  rw [List.map_congr_left fun c hc => (h c hc).2, List.map_id']

/-! ## Counts -/

lemma isPlain_of_isDigit {cs : List Char} (h : ∀ c ∈ cs, c.isDigit = true) : isPlain cs = true := by
  rw [isPlain_iff]
  intro c hc
  have hdigit := Char.isDigit_iff_toNat.1 (h c hc)
  have digits : ∀ i < 58, 48 ≤ i →
      isBlank (Char.ofNat i) = false ∧ lowerChar (Char.ofNat i) = Char.ofNat i := by decide
  have h := digits c.toNat (Nat.lt_succ_of_le hdigit.2) hdigit.1
  rwa [Char.ofNat_toNat] at h

lemma isDigit_of_mem_toDigits {n : ℕ} {c : Char} (h : c ∈ Nat.toDigits 10 n) : c.isDigit = true :=
  Nat.isDigit_of_mem_toDigits (by decide) (by decide) h

lemma isPlain_toDigits (n : ℕ) : isPlain (Nat.toDigits 10 n) = true :=
  isPlain_of_isDigit fun _ => isDigit_of_mem_toDigits

/-- A character that is not a digit is not among the digits of a count. -/
lemma not_mem_toDigits {c : Char} (hc : c.isDigit = false) (n : ℕ) : c ∉ Nat.toDigits 10 n := by
  intro h
  rw [isDigit_of_mem_toDigits h] at hc
  exact Bool.noConfusion hc

/-- Digits write the count that they stand for. -/
lemma natural?_eq {cs : List Char} (hne : cs ≠ []) (h : ∀ c ∈ cs, c.isDigit = true) :
    natural? 10 cs = some (Nat.ofDigitChars 10 cs 0) := by
  rw [natural?, if_neg hne]
  clear hne
  generalize 0 = n
  induction cs generalizing n with
  | nil => rfl
  | cons c rest ih =>
      rw [List.forall_mem_cons] at h
      have hdigit := Char.isDigit_iff_toNat.1 h.1
      have hc : '0' ≤ c ∧ c ≤ '9' := hdigit
      have hlt : c.toNat - 48 < 10 := by
        have : c.toNat ≤ 57 := hdigit.2
        omega
      rw [List.foldlM_cons, if_pos hc, if_pos hlt, Nat.ofDigitChars_cons]
      exact ih h.2 _

lemma trimChars_toDigits (n : ℕ) : trimChars (Nat.toDigits 10 n) = Nat.toDigits 10 n :=
  trimChars_of_isPlain (isPlain_toDigits n)

lemma count?_of_isDigit {limit : ℕ} {cs : List Char} (hne : cs ≠ [])
    (h : ∀ c ∈ cs, c.isDigit = true) (hlimit : Nat.ofDigitChars 10 cs 0 ≤ limit) :
    count? limit cs = some (Nat.ofDigitChars 10 cs 0) := by
  unfold count?
  split
  · exact absurd (h '+' List.mem_cons_self) (by decide)
  · simp [natural?_eq hne h, hlimit]

lemma count?_toDigits {limit n : ℕ} (h : n ≤ limit) :
    count? limit (Nat.toDigits 10 n) = some n := by
  have hcount := Nat.ofDigitChars_ten_toDigits (n := n)
  have := @count?_of_isDigit limit (Nat.toDigits 10 n) Nat.toDigits_ne_nil
    (fun _ => isDigit_of_mem_toDigits) (hcount.trans_le h)
  rwa [hcount] at this

/-! ## Separators -/

lemma fields_of_not_mem {separator : Char} : ∀ {cs : List Char}, separator ∉ cs →
    fields separator cs = [cs]
  | [], _ => rfl
  | c :: rest, h => by
      rw [List.mem_cons, not_or] at h
      rw [fields, if_neg (Ne.symm h.1), fields_of_not_mem h.2]

lemma fields_append {separator : Char} {rest : List Char} : ∀ {cs : List Char}, separator ∉ cs →
    fields separator (cs ++ separator :: rest) = cs :: fields separator rest
  | [], _ => by simp [fields]
  | c :: cs, h => by
      rw [List.mem_cons, not_or] at h
      rw [List.cons_append, fields, if_neg (Ne.symm h.1), fields_append h.2]

/-! ## Trimming -/

lemma trimChars_eq_rdropWhile (cs : List Char) :
    trimChars cs = (cs.dropWhile isBlank).rdropWhile isBlank := rfl

/-- There is nothing to trim where trimming was done. -/
lemma trimChars_trimChars (cs : List Char) : trimChars (trimChars cs) = trimChars cs := by
  -- without the blanks at the end, the first character stays what it was
  have front : (trimChars cs).dropWhile isBlank = trimChars cs := by
    have hprefix : trimChars cs <+: cs.dropWhile isBlank := List.rdropWhile_prefix _ _
    cases htrim : trimChars cs with
    | nil => rfl
    | cons c rest =>
        obtain ⟨tail, htail⟩ := htrim ▸ hprefix
        have hc := List.dropWhile_idempotent isBlank cs
        rw [← htail, List.cons_append, List.dropWhile_eq_self_iff] at hc
        exact List.dropWhile_eq_self_iff.2 fun _ => by simpa using hc
  rw [trimChars_eq_rdropWhile (trimChars cs), front]
  exact List.rdropWhile_idempotent _ _

lemma trim_trim (s : String) : trim (trim s) = trim s := by
  simp only [trim, String.toList_ofList, trimChars_trimChars]

lemma canonical_trim (s : String) : canonical (trim s) = canonical s := by
  rw [canonical, trim_trim, canonical]

end Text

/-! ## Data types -/

namespace DataType

open Text (limit32 isPlain isPlain_append)

/-- Some text spells the type: its arguments have 32 bits, and a scale is the second one. -/
def IsSpelled : DataType → Prop
  | .decimal p s => (∀ n ∈ p, n ≤ limit32) ∧ (∀ n ∈ s, n ≤ limit32) ∧ (p = none → s = none)
  | .arrayOf element => element.IsSpelled
  | _ => True

lemma isSpelled_of_named? {word : String} {t : DataType} (h : named? word = some t) :
    t.IsSpelled := by
  unfold named? at h
  split at h <;> cases h <;> simp [IsSpelled]

lemma isSpelled_of_decimal? {cs : List Char} {t : DataType} (h : decimal? cs = some t) :
    t.IsSpelled := by
  have small : ∀ n, some n ∈ (Text.fields ',' cs).map
      (fun a => Text.count? limit32 (Text.trimChars a)) → n ≤ limit32 := by
    intro n hn
    obtain ⟨a, _, ha⟩ := List.mem_map.1 hn
    exact Text.count?_le ha
  unfold decimal? at h
  split at h
  · rename_i p hp
    rw [hp] at small
    cases h
    simpa [IsSpelled] using small
  · rename_i p s hps
    rw [hps] at small
    cases h
    simpa [IsSpelled] using small
  · cases h

lemma isSpelled_of_parseChars? (cs : List Char) :
    ∀ {t : DataType}, parseChars? cs = some t → t.IsSpelled := by
  fun_induction parseChars? cs with
  | case1 =>
      rename_i ih
      intro t h
      obtain ⟨e, he, rfl⟩ := Option.map_eq_some_iff.1 h
      have spelled : e.IsSpelled := ih he
      exact spelled
  | case2 => exact isSpelled_of_decimal?
  | case3 => exact isSpelled_of_named?

/-! ## The text of a type -/

lemma isPlain_chars : ∀ t : DataType, isPlain t.chars = true
  | .string | .varchar | .int | .long | .float | .double | .number | .boolean | .date | .time
  | .timestamp | .timestampTz | .timestampNtz | .bytes | .null | .map | .array
  | .decimal none _ => rfl
  | .decimal (some p) none =>
      isPlain_append (isPlain_append rfl (Text.isPlain_toDigits p)) rfl
  | .decimal (some p) (some s) => by
      have scale : isPlain ([','] ++ Nat.toDigits 10 s) = true :=
        isPlain_append rfl (Text.isPlain_toDigits s)
      exact isPlain_append (isPlain_append (isPlain_append rfl (Text.isPlain_toDigits p)) scale) rfl
  | .arrayOf element => isPlain_append (isPlain_append rfl (isPlain_chars element)) rfl

/-- The arguments of a decimal are read from the digits that they are written with. -/
lemma decimal?_toDigits {p : ℕ} (hp : p ≤ limit32) :
    decimal? (Nat.toDigits 10 p) = some (.decimal (some p) none) := by
  have hcomma : ',' ∉ Nat.toDigits 10 p := Text.not_mem_toDigits (by decide) p
  simp [decimal?, Text.fields_of_not_mem hcomma, Text.trimChars_toDigits, Text.count?_toDigits hp]

lemma decimal?_toDigits_comma {p s : ℕ} (hp : p ≤ limit32) (hs : s ≤ limit32) :
    decimal? (Nat.toDigits 10 p ++ ',' :: Nat.toDigits 10 s) =
      some (.decimal (some p) (some s)) := by
  have hcomma : ∀ n, ',' ∉ Nat.toDigits 10 n := Text.not_mem_toDigits (by decide)
  simp [decimal?, Text.fields_append (hcomma p), Text.fields_of_not_mem (hcomma s),
    Text.trimChars_toDigits, Text.count?_toDigits hp, Text.count?_toDigits hs]

section Word

/-! A text is read by its word, which is what trimming leaves of it, in lower case.  There are three
ways to read a word. -/

variable {cs word : List Char}

lemma parseChars?_of_word_eq (hword : (Text.trimChars cs).map Text.lowerChar = word) :
    parseChars? cs = (Text.between? "array<".toList '>' word).elim
      ((decimalArguments? word).elim (named? (String.ofList word)) decimal?)
      fun element => (parseChars? element).map .arrayOf := by
  rw [parseChars?]
  split
  · rename_i element henclosed
    rw [hword] at henclosed
    rw [henclosed, Option.elim_some]
  · rename_i hopen
    rw [hword] at hopen ⊢
    rw [hopen, Option.elim_none]
    cases decimalArguments? word <;> rfl

lemma parseChars?_of_enclosed {element : List Char}
    (hword : (Text.trimChars cs).map Text.lowerChar = word)
    (henclosed : Text.between? "array<".toList '>' word = some element) :
    parseChars? cs = (parseChars? element).map .arrayOf := by
  rw [parseChars?_of_word_eq hword, henclosed, Option.elim_some]

lemma parseChars?_of_arguments {arguments : List Char}
    (hword : (Text.trimChars cs).map Text.lowerChar = word)
    (hopen : Text.between? "array<".toList '>' word = none)
    (harguments : decimalArguments? word = some arguments) :
    parseChars? cs = decimal? arguments := by
  rw [parseChars?_of_word_eq hword, hopen, Option.elim_none, harguments, Option.elim_some]

lemma parseChars?_of_bare (hword : (Text.trimChars cs).map Text.lowerChar = word)
    (hopen : Text.between? "array<".toList '>' word = none)
    (hbare : decimalArguments? word = none) :
    parseChars? cs = named? (String.ofList word) := by
  rw [parseChars?_of_word_eq hword, hopen, Option.elim_none, hbare, Option.elim_none]

/-- A plain text is its own word. -/
lemma word_of_isPlain (hplain : isPlain cs = true) :
    (Text.trimChars cs).map Text.lowerChar = cs := by
  rw [Text.trimChars_of_isPlain hplain, Text.map_lowerChar_of_isPlain hplain]

/-- The word `decimal` is in front, and the arguments are in brackets. -/
lemma decimalArguments?_append (arguments : List Char) :
    decimalArguments? ("decimal(".toList ++ arguments ++ [')']) = some arguments := by
  have hrest : Text.dropLead? "decimal(".toList ("decimal(".toList ++ arguments ++ [')']) =
      some (arguments ++ [')']) := Text.dropLead?_eq_some_iff.2 (List.append_assoc _ _ _)
  simp only [decimalArguments?, hrest]
  exact Text.dropLast?_eq_some_iff.2 rfl

end Word

/-- **The text of a type spells the type**, if any text does. -/
lemma parseChars?_chars {t : DataType} (ht : t.IsSpelled) : parseChars? t.chars = some t := by
  have hword := word_of_isPlain (isPlain_chars t)
  induction t with
  | decimal p s =>
      obtain ⟨hp, hs, hscale⟩ := ht
      cases p with
      | none =>
          obtain rfl := hscale rfl
          exact parseChars?_of_bare hword rfl rfl
      | some p =>
          cases s with
          | none =>
              rw [parseChars?_of_arguments hword rfl (decimalArguments?_append _),
                decimal?_toDigits (hp p rfl)]
          | some s =>
              have harguments : (decimal (some p) (some s)).chars = "decimal(".toList ++
                  (Nat.toDigits 10 p ++ ',' :: Nat.toDigits 10 s) ++ [')'] :=
                congrArg (· ++ [')']) (List.append_assoc _ _ _)
              rw [harguments] at hword ⊢
              rw [parseChars?_of_arguments hword rfl (decimalArguments?_append _),
                decimal?_toDigits_comma (hp p rfl) (hs s rfl)]
  | arrayOf element ih =>
      have henclosed : Text.between? "array<".toList '>' (arrayOf element).chars =
          some element.chars := Text.between?_eq_some_iff.2 rfl
      rw [parseChars?_of_enclosed hword henclosed, ih ht (word_of_isPlain (isPlain_chars element))]
      rfl
  | _ => exact parseChars?_of_bare hword rfl rfl

/-- **What a text spells is spelled by the text of the type.** -/
theorem parse?_text {s : String} {t : DataType} (h : parse? s = some t) :
    parse? t.text = some t := by
  rw [parse?, text, String.toList_ofList]
  exact parseChars?_chars (isSpelled_of_parseChars? _ h)

end DataType

/-! ## Platforms of servers -/

namespace ServerType

/-- A tag that names no platform is kept without the blanks around it. -/
lemma eq_trim_of_parse {tag rest : String} (h : parse tag = .other rest) :
    rest = Text.trim tag := by
  unfold parse at h
  split at h <;> cases h
  rfl

lemma parse_trim (tag : String) : parse (Text.trim tag) = parse tag := by
  simp only [parse, Text.canonical_trim, Text.trim_trim]

/-- **The tag that is shown names the platform** that was read. -/
theorem parse_name (tag : String) : parse (parse tag).name = parse tag := by
  cases h : parse tag with
  | other rest =>
      rw [name, eq_trim_of_parse h, parse_trim, h, eq_trim_of_parse h]
  | _ => rfl

end ServerType

end ContractDrift
