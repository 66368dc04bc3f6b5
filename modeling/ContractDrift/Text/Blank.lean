/-!
# Blanks, letter case and splitting

The plain text rules that the readers of this library share. A *blank* is a character with the
Unicode property `White_Space`; trimming removes blanks from both ends. Letter case is folded for
ASCII letters only, so `İ` and `Ｋ` are left alone.

* `isBlank`, `trim` — blanks and their removal.
* `lowerAscii` — lower case of the letters `A` to `Z`.
* `fields` — the parts of a text between separators.
* `between?` — what an opening text and a closing character enclose.
-/

namespace ContractDrift.Text

/-- The ranges of code points with the property `White_Space`. -/
def blankRanges : List (Nat × Nat) :=
  [(0x09, 0x0D), (0x20, 0x20), (0x85, 0x85), (0xA0, 0xA0), (0x1680, 0x1680), (0x2000, 0x200A),
    (0x2028, 0x2029), (0x202F, 0x202F), (0x205F, 0x205F), (0x3000, 0x3000)]

/-- Whether a character has the property `White_Space`. -/
def isBlank (c : Char) : Bool := blankRanges.any fun r => r.1 ≤ c.toNat && c.toNat ≤ r.2

/-- Without the blanks at both ends. -/
def trimChars (cs : List Char) : List Char :=
  ((cs.dropWhile isBlank).reverse.dropWhile isBlank).reverse

/-- Without the blanks at both ends. -/
def trim (s : String) : String := String.ofList (trimChars s.toList)

/-- Lower case of an ASCII letter, any other character unchanged. -/
def lowerChar (c : Char) : Char := if 'A' ≤ c ∧ c ≤ 'Z' then Char.ofNat (c.toNat + 32) else c

/-- Lower case of the ASCII letters. -/
def lowerAscii (s : String) : String := String.ofList (s.toList.map lowerChar)

/-- A word as it is compared: trimmed, in lower case. -/
def canonical (s : String) : String := lowerAscii (trim s)

/-- The parts between separators; a text without separators is its own only part. -/
def fields (separator : Char) : List Char → List (List Char)
  | [] => [[]]
  | c :: rest =>
    if c = separator then [] :: fields separator rest
    else
      match fields separator rest with
      | [] => [[c]]
      | word :: words => (c :: word) :: words

/-- The rest of a text that begins with `lead`. -/
def dropLead? : List Char → List Char → Option (List Char)
  | [], cs => some cs
  | _ :: _, [] => none
  | p :: lead, c :: cs => if p = c then dropLead? lead cs else none

/-- The part of a text before its last character, if that is `last`. -/
def dropLast? (last : Char) (cs : List Char) : Option (List Char) :=
  match cs.reverse with
  | c :: rest => if c = last then some rest.reverse else none
  | [] => none

/-- What stands between an opening text and a closing character, if the whole text is enclosed. -/
def between? (lead : List Char) (last : Char) (cs : List Char) : Option (List Char) :=
  (dropLead? lead cs).bind (dropLast? last)

theorem fields_ne_nil {separator : Char} : ∀ cs : List Char, fields separator cs ≠ []
  | [] => by simp [fields]
  | c :: rest => by
    unfold fields
    split
    · simp
    · split <;> simp

theorem dropLead?_eq_some_iff {rest : List Char} :
    ∀ {lead cs : List Char}, dropLead? lead cs = some rest ↔ cs = lead ++ rest
  | [], cs => by simp [dropLead?]
  | p :: lead, [] => by simp [dropLead?]
  | p :: lead, c :: cs => by
    unfold dropLead?
    split
    · rename_i h
      subst h
      simp [dropLead?_eq_some_iff]
    · rename_i h
      simp [Ne.symm h]

theorem dropLast?_eq_some_iff {last : Char} {cs rest : List Char} :
    dropLast? last cs = some rest ↔ cs = rest ++ [last] := by
  unfold dropLast?
  have reverse_inj : cs = rest ++ [last] ↔ cs.reverse = (rest ++ [last]).reverse :=
    List.reverse_inj.symm
  rw [reverse_inj]
  cases h : cs.reverse with
  | nil => simp
  | cons c r =>
    simp only [List.reverse_append, List.reverse_cons, List.reverse_nil, List.nil_append,
      List.singleton_append, List.cons.injEq]
    by_cases hc : c = last
    · simp only [hc, if_true, Option.some.injEq, true_and]
      exact ⟨fun e => by rw [← e, List.reverse_reverse], fun e => by rw [e, List.reverse_reverse]⟩
    · simp [hc]

theorem between?_eq_some_iff {lead : List Char} {last : Char} {cs inner : List Char} :
    between? lead last cs = some inner ↔ cs = lead ++ inner ++ [last] := by
  simp only [between?, Option.bind_eq_some_iff, dropLead?_eq_some_iff, dropLast?_eq_some_iff]
  constructor
  · intro enclosed
    obtain ⟨_, h, h'⟩ := enclosed
    rw [h, h', List.append_assoc]
  · intro h
    exact ⟨_, by rw [h, List.append_assoc], rfl⟩

theorem length_dropWhile_le {p : Char → Bool} (cs : List Char) :
    (cs.dropWhile p).length ≤ cs.length :=
  (List.dropWhile_sublist p).length_le

theorem length_trimChars_le (cs : List Char) : (trimChars cs).length ≤ cs.length := by
  unfold trimChars
  rw [List.length_reverse]
  refine Nat.le_trans (length_dropWhile_le _) ?_
  rw [List.length_reverse]
  exact length_dropWhile_le _

end ContractDrift.Text
