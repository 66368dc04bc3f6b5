import ContractDrift.Text.Count

/-!
# Quoted texts of configuration files

Texts stand between quotes. Between double quotes a backslash begins an escape; between single
quotes all is literal. Three quotes enclose a text of several lines: a line break right after them
is left out, up to two more quotes may stand before the closing ones, and between double quotes a
backslash at the end of a line takes the line break and all blanks after it away.

* `Toml.span?` — the text up to the closing quotes as it is written.
* `Toml.unescape?` — the text that written characters stand for.
* `Toml.quoted?` — a quoted text on one line, `Toml.quotedLines?` one on several.
-/

namespace ContractDrift.Toml

/-- Whether a character may stand in a line. -/
def isLineChar (c : Char) : Bool := c = '\t' || (0x20 ≤ c.toNat && c.toNat ≠ 0x7F)

/-- Whether a character is a blank of a line. -/
def isBlank (c : Char) : Bool := c = ' ' || c = '\t'

/-- The characters up to a closing quote, and those after it. If there are escapes, the character
after a backslash closes nothing. -/
def span? (quote : Char) (escapes : Bool) : List Char → Option (List Char × List Char)
  | [] => none
  | '\\' :: c :: rest =>
    if escapes then (span? quote escapes rest).map fun r => ('\\' :: c :: r.1, r.2)
    else (span? quote escapes (c :: rest)).map fun r => ('\\' :: r.1, r.2)
  | c :: rest =>
    if c = quote then some ([], rest)
    else (span? quote escapes rest).map fun r => (c :: r.1, r.2)

/-- The characters up to three closing quotes, of which the last of a longer row are taken, and
those after them. -/
def spanLines? (quote : Char) (escapes : Bool) : List Char → Option (List Char × List Char)
  | [] => none
  | '\\' :: c :: rest =>
    if escapes then (spanLines? quote escapes rest).map fun r => ('\\' :: c :: r.1, r.2)
    else (spanLines? quote escapes (c :: rest)).map fun r => ('\\' :: r.1, r.2)
  | c :: rest =>
    if c = quote then
      match rest.takeWhile (· = quote) |>.length with
      | 0 | 1 => (spanLines? quote escapes rest).map fun r => (c :: r.1, r.2)
      | 2 => some ([], rest.drop 2)
      | 3 => some ([quote], rest.drop 3)
      | _ => some ([quote, quote], rest.drop 4)
    else (spanLines? quote escapes rest).map fun r => (c :: r.1, r.2)

/-- The character that an escape of one letter stands for. -/
def escaped? : Char → Option Char
  | 'b' => some '\x08'
  | 't' => some '\t'
  | 'n' => some '\n'
  | 'f' => some '\x0c'
  | 'r' => some '\r'
  | '"' => some '"'
  | '\\' => some '\\'
  | _ => none

/-- The character with a code in hexadecimal digits. -/
def coded? (digits : List Char) : Option Char := do
  let n ← Text.natural? 16 digits
  if n.isValidChar then some (Char.ofNat n) else none

/-- Where one is in a text while its escapes are resolved. -/
inductive Place where
  | inside
  /-- After a backslash that blanks follow; the line ends here. -/
  | lineEnd
  /-- After a line break that was taken away. -/
  | afterBreak
  deriving DecidableEq

/-- The text that the characters between double quotes stand for. -/
def unescape? (lines : Bool) : Place → List Char → Option (List Char)
  | .lineEnd, c :: rest =>
    if isBlank c then unescape? lines .lineEnd rest
    else if c = '\n' then unescape? lines .afterBreak rest
    else if c = '\r' && rest.head? = some '\n' then unescape? lines .lineEnd rest
    else none
  | .lineEnd, [] => none
  | _, [] => some []
  | _, '\\' :: 'u' :: a :: b :: c :: d :: rest => do
    let ch ← coded? [a, b, c, d]
    let r ← unescape? lines .inside rest
    some (ch :: r)
  | _, '\\' :: 'U' :: a :: b :: c :: d :: e :: f :: g :: h :: rest => do
    let ch ← coded? [a, b, c, d, e, f, g, h]
    let r ← unescape? lines .inside rest
    some (ch :: r)
  | _, '\\' :: c :: rest =>
    if lines && (isBlank c || c = '\r' || c = '\n') then unescape? lines .lineEnd (c :: rest)
    else do
      let ch ← escaped? c
      let r ← unescape? lines .inside rest
      some (ch :: r)
  | place, c :: rest =>
    if lines && (c = '\n' || (c = '\r' && rest.head? = some '\n')) then
      if c = '\r' then unescape? lines place rest
      else if place = .afterBreak then unescape? lines .afterBreak rest
      else (unescape? lines .inside rest).map ('\n' :: ·)
    else if place = .afterBreak && isBlank c then unescape? lines .afterBreak rest
    else if isLineChar c && c ≠ '\\' then (unescape? lines .inside rest).map (c :: ·)
    else none

/-- The text that the characters between single quotes stand for. -/
def literal? (lines : Bool) : List Char → Option (List Char)
  | [] => some []
  | c :: rest =>
    if isLineChar c then (literal? lines rest).map (c :: ·)
    else if lines && c = '\n' then (literal? lines rest).map (c :: ·)
    else if lines && c = '\r' && rest.head? = some '\n' then literal? lines rest
    else none

/-- The text between two quotes of a sort. -/
def content? (quote : Char) (lines : Bool) (written : List Char) : Option String :=
  (if quote = '"' then unescape? lines .inside written else literal? lines written).map
    String.ofList

/-- A quoted text on one line, whose opening quote has been read, and what follows it. -/
def quoted? (quote : Char) (cs : List Char) : Option (String × List Char) := do
  let (written, rest) ← span? quote (quote = '"') cs
  let s ← content? quote false written
  some (s, rest)

/-- A quoted text of several lines, whose opening quotes have been read, and what follows it. -/
def quotedLines? (quote : Char) (cs : List Char) : Option (String × List Char) := do
  let body := match cs with
    | '\n' :: rest => rest
    | '\r' :: '\n' :: rest => rest
    | cs => cs
  let (written, rest) ← spanLines? quote (quote = '"') body
  let s ← content? quote true written
  some (s, rest)

end ContractDrift.Toml
