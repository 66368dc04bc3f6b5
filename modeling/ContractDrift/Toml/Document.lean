import ContractDrift.Toml.Quoted
import ContractDrift.Toml.Value

/-!
# Reading configuration files

A configuration file consists of lines: blank ones, headers between brackets, and entries with a
dotted key before an equals sign and a value after it. The entries before the first header belong to
the file's table, all others to the table of the header above them.

* `Toml.value?` — a value and what follows it.
* `Toml.lines?` — the lines of a file.
* `Toml.read?` — the entries of the table that a file is.
-/

namespace ContractDrift.Toml

/-! ## Keys -/

/-- Whether a character may stand in a key without quotes. -/
def isKeyChar (c : Char) : Bool := c.isAlphanum || c = '_' || c = '-'

/-- One part of a dotted key, and what follows it. -/
def keyPart? : List Char → Option (String × List Char)
  | '"' :: rest => quoted? '"' rest
  | '\'' :: rest => quoted? '\'' rest
  | cs =>
    match cs.takeWhile isKeyChar with
    | [] => none
    | word => some (String.ofList word, cs.drop word.length)

/-- The parts of a dotted key, with blanks around each, and what follows them. A key has fewer parts
than `fuel`. -/
def key? : (fuel : Nat) → List Char → Option (List String × List Char)
  | 0, _ => none
  | fuel + 1, cs => do
    let (part, cs) ← keyPart? (cs.dropWhile isBlank)
    match cs.dropWhile isBlank with
    | '.' :: rest => do
      let (parts, cs) ← key? fuel rest
      some (part :: parts, cs)
    | cs => some ([part], cs)

/-! ## Numbers -/

/-- The digits of a number without the single underscores between them. -/
def joinDigits? : List Char → Option (List Char)
  | [] => none
  | [c] => if c = '_' then none else some [c]
  | c :: '_' :: rest => if c = '_' then none else (joinDigits? rest).map (c :: ·)
  | c :: rest => if c = '_' then none else (joinDigits? rest).map (c :: ·)

/-- A natural in digits of a base, and what follows it. -/
def natural? (base : Nat) (isDigit : Char → Bool) (cs : List Char) : Option (Nat × List Char) := do
  let written := cs.takeWhile fun c => isDigit c || c = '_'
  let digits ← joinDigits? written
  let n ← Text.natural? base digits
  some (n, cs.drop written.length)

/-- A natural in decimal digits without superfluous zeros, and what follows it. -/
def decimal? (cs : List Char) : Option (Nat × List Char) :=
  match cs with
  | '0' :: c :: rest => if c.isDigit || c = '_' then none else some (0, c :: rest)
  | cs => natural? 10 Char.isDigit cs

/-- Whether a character is a hexadecimal digit. -/
def isHexDigit (c : Char) : Bool :=
  c.isDigit || ('a' ≤ c && c ≤ 'f') || ('A' ≤ c && c ≤ 'F')

/-- The least whole number of 64 bits. -/
def leastWhole : Int := -9223372036854775808

/-- The greatest whole number of 64 bits. -/
def greatestWhole : Int := 9223372036854775807

/-- A whole number of 64 bits, and what follows it. -/
def whole? (cs : List Char) : Option (Int × List Char) := do
  let (n, rest) ← match cs with
    | '0' :: 'x' :: rest => (natural? 16 isHexDigit rest).map fun r => (Int.ofNat r.1, r.2)
    | '0' :: 'o' :: rest =>
      (natural? 8 (fun c => '0' ≤ c && c ≤ '7') rest).map fun r => (Int.ofNat r.1, r.2)
    | '0' :: 'b' :: rest =>
      (natural? 2 (fun c => c = '0' || c = '1') rest).map fun r => (Int.ofNat r.1, r.2)
    | '+' :: rest => (decimal? rest).map fun r => (Int.ofNat r.1, r.2)
    | '-' :: rest => (decimal? rest).map fun r => (-Int.ofNat r.1, r.2)
    | cs => (decimal? cs).map fun r => (Int.ofNat r.1, r.2)
  if leastWhole ≤ n ∧ n ≤ greatestWhole then some (n, rest) else none

/-! ## Values -/

/-- What follows the blanks, line breaks and comments between the items of a list. -/
def gap? (comment : Bool) : List Char → Option (List Char)
  | [] => none
  | c :: rest =>
    if c = '\n' then gap? false rest
    else if c = '\r' && rest.head? = some '\n' then gap? comment rest
    else if comment then if isLineChar c then gap? true rest else none
    else if isBlank c then gap? false rest
    else if c = '#' then gap? true rest
    else some (c :: rest)

mutual

/-- A value and what follows it. -/
def value? : (fuel : Nat) → List Char → Option (Value × List Char)
  | 0, _ => none
  | fuel + 1, cs =>
    match cs with
    | '"' :: '"' :: '"' :: rest => (quotedLines? '"' rest).map fun r => (.text r.1, r.2)
    | '"' :: rest => (quoted? '"' rest).map fun r => (.text r.1, r.2)
    | '\'' :: '\'' :: '\'' :: rest => (quotedLines? '\'' rest).map fun r => (.text r.1, r.2)
    | '\'' :: rest => (quoted? '\'' rest).map fun r => (.text r.1, r.2)
    | 't' :: 'r' :: 'u' :: 'e' :: rest => some (.truth true, rest)
    | 'f' :: 'a' :: 'l' :: 's' :: 'e' :: rest => some (.truth false, rest)
    | '[' :: rest => (items? fuel rest).map fun r => (.list r.1, r.2)
    | '\x7b' :: rest =>
      match rest.dropWhile isBlank with
      | '\x7d' :: rest => some (.table .braced [], rest)
      | inner => do
        let (pairs, rest) ← pairs? fuel inner
        let entries ← assignAll? [] pairs
        some (.table .braced entries, rest)
    | cs => (whole? cs).map fun r => (.whole r.1, r.2)

/-- The items of a list up to its end, and what follows it. -/
def items? : (fuel : Nat) → List Char → Option (List Value × List Char)
  | 0, _ => none
  | fuel + 1, cs => do
    match ← gap? false cs with
    | ']' :: rest => some ([], rest)
    | cs => do
      let (v, cs) ← value? fuel cs
      match ← gap? false cs with
      | ']' :: rest => some ([v], rest)
      | ',' :: rest => do
        let (vs, cs) ← items? fuel rest
        some (v :: vs, cs)
      | _ => none

/-- The pairs between braces, and what follows the closing one. -/
def pairs? : (fuel : Nat) → List Char → Option (List (List String × Value) × List Char)
  | 0, _ => none
  | fuel + 1, cs => do
    let (pair, cs) ← pair? fuel cs
    match cs.dropWhile isBlank with
    | '\x7d' :: rest => some ([pair], rest)
    | ',' :: rest => do
      let (pairs, cs) ← pairs? fuel rest
      some (pair :: pairs, cs)
    | _ => none

/-- A dotted key, an equals sign and a value, and what follows them. -/
def pair? : (fuel : Nat) → List Char → Option ((List String × Value) × List Char)
  | 0, _ => none
  | fuel + 1, cs => do
    match ← key? (fuel + 1) cs with
    | (key, '=' :: rest) => do
      let (v, cs) ← value? fuel (rest.dropWhile isBlank)
      some ((key, v), cs)
    | _ => none

end

/-! ## Lines -/

/-- What a line of a file says. -/
inductive Line where
  | header (path : List String)
  | pair (key : List String) (v : Value)

/-- What follows the end of a line, before which there may be blanks and a comment. -/
def lineEnd? (cs : List Char) : Option (List Char) :=
  let cs := match cs.dropWhile isBlank with
    | '#' :: rest => rest.dropWhile isLineChar
    | cs => cs
  match cs with
  | [] => some []
  | '\n' :: rest => some rest
  | '\r' :: '\n' :: rest => some rest
  | _ => none

/-- A line that says something, and what follows it. Between two steps into a value there is at
least half a character, and so twice the length of the text is enough fuel. -/
def line? (cs : List Char) : Option (Line × List Char) :=
  let fuel := 2 * cs.length + 2
  match cs with
  | '[' :: rest => do
    match ← key? fuel rest with
    | (path, ']' :: rest) => (lineEnd? rest).map fun cs => (.header path, cs)
    | _ => none
  | cs => do
    let ((key, v), rest) ← pair? fuel cs
    (lineEnd? rest).map fun cs => (.pair key v, cs)

/-- The lines of a text that say something. A text has no more lines than characters. -/
def lines? : (fuel : Nat) → List Char → Option (List Line)
  | _, [] => some []
  | 0, _ => none
  | fuel + 1, cs =>
    match lineEnd? cs with
    | some rest => lines? fuel rest
    | none => do
      let (line, rest) ← line? (cs.dropWhile isBlank)
      let lines ← lines? fuel rest
      some (line :: lines)

/-! ## Files -/

/-- The pairs before the first header, and those below each header. -/
def sections : List Line → List (List String × Value) × List (List String × List (List String × Value))
  | [] => ([], [])
  | .pair key v :: rest => let (pairs, headed) := sections rest; ((key, v) :: pairs, headed)
  | .header path :: rest => let (pairs, headed) := sections rest; ([], (path, pairs) :: headed)

/-- The entries of the table that a file is. A byte order mark at its beginning is passed over. -/
def read? (text : String) : Option (List (String × Value)) := do
  let cs := match text.toList with
    | '\uFEFF' :: rest => rest
    | cs => cs
  let (pairs, headed) := sections (← lines? cs.length cs)
  let entries ← assignAll? [] pairs
  headed.foldlM (fun es part => define? es part.2 part.1) entries

end ContractDrift.Toml
