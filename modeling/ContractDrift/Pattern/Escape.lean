import ContractDrift.Pattern.Basic
import ContractDrift.Pattern.Property
import ContractDrift.Text.Count

/-!
# Escapes in patterns

A backslash begins an escape. Some stand for a character, some for a set of characters and some for
a condition on the place. What may follow depends on two modes: whether blanks and comments are
passed over, and whether characters are those of Unicode or bytes.

* `Pattern.Mode` — the two modes.
* `Pattern.Atom` — what an escape stands for.
* `Pattern.escape?` — the escape after a backslash, and what follows it.
-/

namespace ContractDrift.Pattern

/-- How a text is read as a pattern. -/
structure Mode where
  /-- Whether blanks and comments are passed over. -/
  spaced : Bool := false
  /-- Whether characters are those of Unicode; else a set may hold those of ASCII only. -/
  unicode : Bool := true
  deriving DecidableEq

/-- What follows blanks and comments, which reach from a number sign to the end of the line. -/
def dropSpace (comment : Bool) : List Char → List Char
  | [] => []
  | c :: rest =>
    if comment then dropSpace (c ≠ '\n') rest
    else if Text.isBlank c then dropSpace false rest
    else if c = '#' then dropSpace true rest
    else c :: rest

/-- What follows if blanks and comments are passed over in this mode. -/
def Mode.skip (m : Mode) (cs : List Char) : List Char :=
  if m.spaced then dropSpace false cs else cs

/-- What an escape or a character stands for. -/
inductive Atom where
  | char (c : Char)
  | set (states : Nat)
  | assertion

/-! ## Sizes of sets -/

/-- States for the letters, digits and marks of all scripts. -/
def wordStates : Nat := 1560

/-- States for the digits of all scripts. -/
def digitStates : Nat := 190

/-- States for the blanks of all scripts. -/
def blankStates : Nat := 32

/-- States for the characters with a property, and for a set given by what is not in it. -/
def propertyStates : Nat := 1250

/-- States for any character. -/
def anyStates : Nat := 30

/-! ## Characters by code -/

/-- Whether a character is a hexadecimal digit. -/
def isHexDigit (c : Char) : Bool :=
  c.isDigit || ('a' ≤ c && c ≤ 'f') || ('A' ≤ c && c ≤ 'F')

/-- A number of hexadecimal digits, and what follows them. -/
def hexDigits? (m : Mode) : Nat → List Char → Option (List Char × List Char)
  | 0, cs => some ([], cs)
  | n + 1, c :: rest =>
    if isHexDigit c then (hexDigits? m n (m.skip rest)).map fun r => (c :: r.1, r.2) else none
  | _ + 1, [] => none

/-- The characters up to a closing brace, and what follows it. -/
def braced? (m : Mode) (cs : List Char) : Option (List Char × List Char) :=
  let inner := cs.takeWhile (· ≠ '\x7d')
  match cs.drop inner.length with
  | [] => none
  | _ :: rest => some (if m.spaced then unspaced false inner else inner, rest)
where
  /-- The characters without blanks and comments. -/
  unspaced (comment : Bool) : List Char → List Char
    | [] => []
    | c :: rest =>
      if comment then unspaced (c ≠ '\n') rest
      else if Text.isBlank c then unspaced false rest
      else if c = '#' then unspaced true rest
      else c :: unspaced false rest

/-- The character with a code. -/
def coded? (digits : List Char) : Option Char := do
  let n ← Text.natural? 16 digits
  if n.isValidChar then some (Char.ofNat n) else none

/-- A character by its code in so many digits, or in any number of them between braces. Without
Unicode two digits are a byte, which must be one of ASCII. -/
def hex? (m : Mode) (count : Nat) (cs : List Char) : Option (Atom × List Char) :=
  match m.skip cs with
  | '\x7b' :: rest => do
    let (digits, rest) ← braced? m rest
    let c ← coded? (← if digits.all isHexDigit then some digits else none)
    some (.char c, m.skip rest)
  | cs => do
    let (digits, rest) ← hexDigits? m count cs
    let c ← coded? digits
    if count = 2 && !m.unicode && 0x80 ≤ c.toNat then none else some (.char c, rest)

/-! ## Properties -/

/-- The parts of a text before and after the first place where a text stands. -/
def splitAt? (mark : List Char) : List Char → Option (List Char × List Char)
  | [] => none
  | c :: rest =>
    match Text.dropLead? mark (c :: rest) with
    | some after => some ([], after)
    | none => (splitAt? mark rest).map fun r => (c :: r.1, r.2)

/-- Whether a text between braces says which property characters have: its name, or its name and a
value that it has or has not. -/
def isProperty (inner : List Char) : Bool :=
  match splitAt? ['!', '='] inner, splitAt? [':'] inner, splitAt? ['='] inner with
  | some (name, value), _, _ => CharacterProperty.isValue name value
  | none, some (name, value), _ => CharacterProperty.isValue name value
  | none, none, some (name, value) => CharacterProperty.isValue name value
  | none, none, none => CharacterProperty.isNamed inner

/-- The set of the characters with a property. -/
def property? (m : Mode) (cs : List Char) : Option (Atom × List Char) := do
  let (name, rest) ← match m.skip cs with
    | [] => none
    | '\x7b' :: rest => braced? m rest
    | c :: rest => if c = '\\' then none else some ([c], m.skip rest)
  if m.unicode && isProperty name then some (.set propertyStates, rest) else none

/-! ## Places -/

/-- Whether a character may stand in the name of a boundary. -/
def isBoundaryChar (c : Char) : Bool := c.isAlpha || c = '-'

/-- The boundary of a word, which may be one of a sort named between braces. Braces with something
else at their beginning belong to what follows. -/
def boundary? (m : Mode) (cs : List Char) : Option (Atom × List Char) :=
  match cs with
  | '\x7b' :: rest =>
    match m.skip rest with
    | [] => none
    | c :: _ =>
      if isBoundaryChar c then do
        let (name, rest) ← braced? m rest
        if ["start", "end", "start-half", "end-half"].contains (String.ofList name) then
          some (.assertion, rest)
        else none
      else some (.assertion, cs)
  | cs => some (.assertion, cs)

/-! ## Escapes -/

/-- A class of characters by its letter; without Unicode there is no complement of one. -/
def letterClass? (m : Mode) (c : Char) (states : Nat) (rest : List Char) :
    Option (Atom × List Char) :=
  if m.unicode then some (.set states, rest)
  else if c.isUpper then none
  else some (.set 2, rest)

/-- What stands after a backslash, and what follows it. -/
def escape? (m : Mode) : List Char → Option (Atom × List Char)
  | [] => none
  | c :: rest =>
    match c with
    | 'x' => hex? m 2 rest
    | 'u' => hex? m 4 rest
    | 'U' => hex? m 8 rest
    | 'p' => property? m rest
    | 'P' => property? m rest
    | 'd' => letterClass? m c digitStates rest
    | 'D' => letterClass? m c digitStates rest
    | 's' => letterClass? m c blankStates rest
    | 'S' => letterClass? m c blankStates rest
    | 'w' => letterClass? m c wordStates rest
    | 'W' => letterClass? m c wordStates rest
    | 'a' => some (.char '\x07', rest)
    | 'f' => some (.char '\x0c', rest)
    | 't' => some (.char '\t', rest)
    | 'n' => some (.char '\n', rest)
    | 'r' => some (.char '\r', rest)
    | 'v' => some (.char '\x0b', rest)
    | 'A' => some (.assertion, rest)
    | 'z' => some (.assertion, rest)
    | 'B' => some (.assertion, rest)
    | '<' => some (.assertion, rest)
    | '>' => some (.assertion, rest)
    | 'b' => boundary? m rest
    | c => if c.isAlphanum || 0x80 ≤ c.toNat then none else some (.char c, rest)

end ContractDrift.Pattern
