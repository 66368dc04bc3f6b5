import ContractDrift.Json.Basic

/-!
# Reading JSON text

A reader of RFC 8259 text. A number without point and exponent that fits into 64 bits, signed or
unsigned, is an integer; every other number, `-0` included, is the nearest binary64 value, and one
beyond the greatest finite value is refused. Of a key that repeats, the last value stays.

* `Json.read?` — the value of a whole text.
-/

namespace ContractDrift.Json

/-- Text without the white space at its beginning. -/
def skipSpace (cs : List Char) : List Char :=
  cs.dropWhile fun c => c = ' ' || c = '\n' || c = '\r' || c = '\t'

/-- The number of a hexadecimal digit. -/
def hexValue? (c : Char) : Option Nat :=
  if '0' ≤ c ∧ c ≤ '9' then some (c.toNat - 48)
  else if 'a' ≤ c ∧ c ≤ 'f' then some (c.toNat - 87)
  else if 'A' ≤ c ∧ c ≤ 'F' then some (c.toNat - 55)
  else none

/-- The number that hexadecimal digits write. -/
def hexNumber? (cs : List Char) : Option Nat :=
  cs.foldlM (fun n c => (hexValue? c).map (16 * n + ·)) 0

/-- A code point as a character; surrogates are none. -/
def char? (n : Nat) : Option Char := if n.isValidChar then some (Char.ofNat n) else none

/-- The character after a backslash that stands for one character. -/
def simpleEscape? (c : Char) : Option Char :=
  match c with
  | '"' => some '"'
  | '\\' => some '\\'
  | '/' => some '/'
  | 'b' => some (Char.ofNat 8)
  | 'f' => some (Char.ofNat 12)
  | 'n' => some '\n'
  | 'r' => some '\r'
  | 't' => some '\t'
  | _ => none

/-- The characters up to the closing quote, and the text after it. -/
def readQuoted? : Nat → List Char → Option (List Char × List Char)
  | 0, _ => none
  | _ + 1, [] => none
  | _ + 1, '"' :: rest => some ([], rest)
  | fuel + 1, '\\' :: 'u' :: a :: b :: c :: d :: rest => do
    let n ← hexNumber? [a, b, c, d]
    if 0xD800 ≤ n ∧ n < 0xDC00 then
      -- the first half of a surrogate pair needs the second one
      match rest with
      | '\\' :: 'u' :: a :: b :: c :: d :: rest =>
        let m ← hexNumber? [a, b, c, d]
        if 0xDC00 ≤ m ∧ m < 0xE000 then
          let (cs, rest) ← readQuoted? fuel rest
          let c ← char? (0x10000 + (n - 0xD800) * 0x400 + (m - 0xDC00))
          some (c :: cs, rest)
        else none
      | _ => none
    else do
      let c ← char? n
      let (cs, rest) ← readQuoted? fuel rest
      some (c :: cs, rest)
  | fuel + 1, '\\' :: c :: rest => do
    let c ← simpleEscape? c
    let (cs, rest) ← readQuoted? fuel rest
    some (c :: cs, rest)
  | fuel + 1, c :: rest =>
    if c.toNat < 32 then none
    else do
      let (cs, rest) ← readQuoted? fuel rest
      some (c :: cs, rest)

/-- Whether the digits before the point have no superfluous zero in front. -/
def wholeDigits (ds : List Char) : Bool :=
  match ds with
  | ['0'] => true
  | '0' :: _ => false
  | ds => !ds.isEmpty

/-- The value of a numeral, if JSON allows it. -/
def number (cs : List Char) : Option Json := do
  let n ← Numeral.read? cs
  if cs.head? = some '+' ∨ !wholeDigits n.whole ∨ cs.getLast? = some '.' ∨
      (cs.contains '.' ∧ n.fraction = []) then none
  else
    let whole := Binary64.signed n.negative (Numeral.natural n.whole)
    if !n.isFraction && inIntegerRange whole && !(n.negative && whole == 0) then some (.int whole)
    else
      let x := n.value
      if x.isFinite then some (.real x) else none

/-- Whether a character may be part of a number. -/
def isNumberChar (c : Char) : Bool :=
  c.isDigit || c = '-' || c = '+' || c = '.' || c = 'e' || c = 'E'

mutual

/-- A value at the beginning of a text, and the text after it. -/
def readValue? : Nat → List Char → Option (Json × List Char)
  | 0, _ => none
  | fuel + 1, cs =>
    match skipSpace cs with
    | 'n' :: 'u' :: 'l' :: 'l' :: rest => some (.null, rest)
    | 't' :: 'r' :: 'u' :: 'e' :: rest => some (.bool true, rest)
    | 'f' :: 'a' :: 'l' :: 's' :: 'e' :: rest => some (.bool false, rest)
    | '"' :: rest => do
      let (s, rest) ← readQuoted? (rest.length + 2) rest
      some (.text (String.ofList s), rest)
    | '[' :: rest =>
      match skipSpace rest with
      | ']' :: rest => some (.list [], rest)
      | rest => do
        let (items, rest) ← readItems? fuel rest
        some (.list items, rest)
    | '\x7b' :: rest =>
      match skipSpace rest with
      | '\x7d' :: rest => some (.object [], rest)
      | rest => do
        let (entries, rest) ← readEntries? fuel rest
        some (.object (Entries.ofList entries).toList, rest)
    | cs => do
      let v ← number (cs.takeWhile isNumberChar)
      some (v, cs.dropWhile isNumberChar)

/-- Items up to the closing bracket. -/
def readItems? : Nat → List Char → Option (List Json × List Char)
  | 0, _ => none
  | fuel + 1, cs => do
    let (v, rest) ← readValue? fuel cs
    match skipSpace rest with
    | ',' :: rest => do
      let (vs, rest) ← readItems? fuel rest
      some (v :: vs, rest)
    | ']' :: rest => some ([v], rest)
    | _ => none

/-- Entries up to the closing brace. -/
def readEntries? : Nat → List Char → Option (List (String × Json) × List Char)
  | 0, _ => none
  | fuel + 1, cs =>
    match skipSpace cs with
    | '"' :: rest => do
      let (k, rest) ← readQuoted? (rest.length + 2) rest
      match skipSpace rest with
      | ':' :: rest => do
        let (v, rest) ← readValue? fuel rest
        match skipSpace rest with
        | ',' :: rest => do
          let (es, rest) ← readEntries? fuel rest
          some ((String.ofList k, v) :: es, rest)
        | '\x7d' :: rest => some ([(String.ofList k, v)], rest)
        | _ => none
      | _ => none
    | _ => none

end

/-- The value of a text. -/
def read? (s : String) : Option Json :=
  let cs := s.toList
  match readValue? (2 * cs.length + 2) cs with
  | some (v, rest) => if skipSpace rest = [] then some v else none
  | none => none

end ContractDrift.Json
