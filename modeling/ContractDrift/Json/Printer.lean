import ContractDrift.Json.Basic

/-!
# JSON text

The two written forms of a value: without any space, and indented by two spaces with one entry to
a line. Only what JSON requires is escaped, so text outside of ASCII is written as it is.

* `Json.compact` — one line, no spaces.
* `Json.pretty` — indented.
-/

namespace ContractDrift.Json

/-- A hexadecimal digit in lower case. -/
def hexDigit (n : Nat) : Char := if n < 10 then Char.ofNat (48 + n) else Char.ofNat (87 + n)

/-- A character inside of a quoted text. -/
def escapeChar (c : Char) : List Char :=
  if c = '"' then ['\\', '"']
  else if c = '\\' then ['\\', '\\']
  else if c = '\n' then ['\\', 'n']
  else if c = '\r' then ['\\', 'r']
  else if c = '\t' then ['\\', 't']
  else if c.toNat = 8 then ['\\', 'b']
  else if c.toNat = 12 then ['\\', 'f']
  else if c.toNat < 32 then
    ['\\', 'u', '0', '0', hexDigit (c.toNat / 16), hexDigit (c.toNat % 16)]
  else [c]

/-- A text in quotes. -/
def quote (s : String) : List Char := '"' :: s.toList.flatMap escapeChar ++ ['"']

/-- A value that has no parts. -/
def atom : Json → List Char
  | .null => "null".toList
  | .bool true => "true".toList
  | .bool false => "false".toList
  | .int n => (if n < 0 then ['-'] else []) ++ NumberLayout.digits n.natAbs
  | .real x => (NumberLayout.json.render x).toList
  | .text s => quote s
  | .list _ => ['[', ']']
  | .object _ => ['\x7b', '\x7d']

mutual

/-- The value without spaces. -/
def compactChars : Json → List Char
  | .list items => '[' :: compactItems items ++ [']']
  | .object entries => '\x7b' :: compactEntries entries ++ ['\x7d']
  | value => atom value

/-- Items separated by commas. -/
def compactItems : List Json → List Char
  | [] => []
  | [a] => compactChars a
  | a :: rest => compactChars a ++ ',' :: compactItems rest

/-- Entries separated by commas. -/
def compactEntries : List (String × Json) → List Char
  | [] => []
  | [(k, a)] => quote k ++ ':' :: compactChars a
  | (k, a) :: rest => quote k ++ ':' :: compactChars a ++ ',' :: compactEntries rest

end

/-- The value in one line without spaces. -/
def compact (v : Json) : String := String.ofList (compactChars v)

/-- A line break and the indentation of a level. -/
def indent (level : Nat) : List Char := '\n' :: List.replicate (2 * level) ' '

mutual

/-- The value indented, its own lines at `level`. -/
def prettyChars (level : Nat) : Json → List Char
  | .list (a :: rest) =>
    '[' :: indent (level + 1) ++ prettyItems (level + 1) (a :: rest) ++ indent level ++ [']']
  | .object (e :: rest) =>
    '\x7b' :: indent (level + 1) ++ prettyEntries (level + 1) (e :: rest) ++ indent level ++
      ['\x7d']
  | value => atom value

/-- Items on lines of their own. -/
def prettyItems (level : Nat) : List Json → List Char
  | [] => []
  | [a] => prettyChars level a
  | a :: rest => prettyChars level a ++ ',' :: indent level ++ prettyItems level rest

/-- Entries on lines of their own. -/
def prettyEntries (level : Nat) : List (String × Json) → List Char
  | [] => []
  | [(k, a)] => quote k ++ ':' :: ' ' :: prettyChars level a
  | (k, a) :: rest =>
    quote k ++ ':' :: ' ' :: prettyChars level a ++ ',' :: indent level ++
      prettyEntries level rest

end

/-- The value indented by two spaces. -/
def pretty (v : Json) : String := String.ofList (prettyChars 0 v)

end ContractDrift.Json
