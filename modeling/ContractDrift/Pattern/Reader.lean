import ContractDrift.Pattern.CharacterSet
import ContractDrift.Text.Letter

/-!
# Reading patterns

A pattern is a choice of branches, and a branch is a sequence of characters, sets, conditions and
groups, each of which may be repeated. Groups may have names, which do not repeat, and may set
flags; looking around and referring back are not possible.

* `Pattern.read?` — the pattern that a text writes.
* `Pattern.isValid` — whether a text is a pattern that can be used.
-/

namespace ContractDrift.Pattern

/-- What is left to read, and what is known at that place. -/
structure Cursor where
  rest : List Char
  mode : Mode := {}
  /-- The names of the groups so far. -/
  names : List String := []

/-- The place after the blanks that the mode passes over. -/
def Cursor.skip (c : Cursor) : Cursor := { c with rest := c.mode.skip c.rest }

/-! ## Repetitions -/

/-- The greatest number of repetitions that can be written. -/
def greatestCount : Nat := Text.limit32

/-- The digits at the beginning, and what follows them. -/
def countDigits (m : Mode) : (fuel : Nat) → List Char → List Char × List Char
  | 0, cs => ([], cs)
  | fuel + 1, cs =>
    match cs with
    | c :: rest =>
      if c.isDigit then
        let (ds, rest) := countDigits m fuel (m.skip rest)
        (c :: ds, rest)
      else ([], cs)
    | [] => ([], [])

/-- A number of repetitions with blanks around it, and what follows it. -/
def count? (m : Mode) (cs : List Char) : Option (Nat × List Char) := do
  let cs := cs.dropWhile Text.isBlank
  let (digits, rest) := countDigits m cs.length cs
  let n ← (Text.natural? 10 digits).filter (· ≤ greatestCount)
  some (n, rest.dropWhile Text.isBlank)

/-- How often something repeats, after an opening brace, and what follows the closing one. -/
def bounds? (m : Mode) (cs : List Char) : Option ((Nat × Option Nat) × List Char) := do
  let (least, rest) ← count? m (m.skip cs)
  match rest with
  | '\x7d' :: rest => some ((least, some least), rest)
  | ',' :: rest =>
    match m.skip rest with
    | '\x7d' :: rest => some ((least, none), rest)
    | rest => do
      let (most, rest) ← count? m rest
      match rest with
      | '\x7d' :: rest => if least ≤ most then some ((least, some most), rest) else none
      | _ => none
  | _ => none

/-- What follows the mark of a repetition that prefers few. -/
def dropLazy : List Char → List Char
  | '?' :: rest => rest
  | cs => cs

/-- How often what stands before repeats, and what follows; none where no repetition begins, and an
error where one cannot be read. -/
def repetition? (m : Mode) : List Char → Option (Option ((Nat × Option Nat) × List Char))
  | '*' :: rest => some (some ((0, none), dropLazy rest))
  | '+' :: rest => some (some ((1, none), dropLazy rest))
  | '?' :: rest => some (some ((0, some 1), dropLazy rest))
  | '\x7b' :: rest => (bounds? m rest).map fun r => some (r.1, dropLazy (m.skip r.2))
  | _ => some none

/-! ## Groups -/

/-- The letters of flags. -/
def flagLetters : List Char := ['i', 'm', 's', 'U', 'u', 'R', 'x']

/-- Flags and whether each is set, up to a colon or a closing parenthesis, and what follows from
there on. No flag comes twice, and after the sign that unsets flags there is one. -/
def flags? (negated dangling : Bool) (seen : List (Char × Bool)) :
    List Char → Option (List (Char × Bool) × List Char)
  | [] => none
  | c :: rest =>
    if c = ':' || c = ')' then if dangling then none else some (seen, c :: rest)
    else if c = '-' then if negated then none else flags? true true seen rest
    else if flagLetters.contains c && !(seen.map Prod.fst).contains c then
      flags? negated false ((c, !negated) :: seen) rest
    else none

/-- The mode with flags set. -/
def Mode.withFlags (m : Mode) (flags : List (Char × Bool)) : Mode where
  spaced := (flags.lookup 'x').getD m.spaced
  unicode := (flags.lookup 'u').getD m.unicode

/-- Whether a character may be in the name of a group. -/
def isNameChar (first : Bool) (c : Char) : Bool :=
  c = '_' || Text.isLetter c ||
    (!first && (Text.isNumber c || c = '.' || c = '[' || c = ']'))

/-- The name of a group, and what follows the closing angle. -/
def groupName? (cs : List Char) : Option (String × List Char) :=
  let name := cs.takeWhile (· ≠ '>')
  match name, cs.drop name.length with
  | first :: others, _ :: rest =>
    if isNameChar true first && others.all (isNameChar false) then
      some (String.ofList name, rest)
    else none
  | _, _ => none

/-- What an opening parenthesis begins. -/
inductive Opening where
  /-- A group whose inside begins at a place. -/
  | group (inside : Cursor)
  /-- A change of flags from a place on. -/
  | flags (after : Cursor)

/-- What an opening parenthesis begins. -/
def opening? (c : Cursor) : Option Opening :=
  let named (cs : List Char) : Option Opening := do
    let (name, rest) ← groupName? cs
    if c.names.contains name then none
    else some (.group { c with rest, names := name :: c.names })
  match c.skip.rest with
  | '?' :: '=' :: _ => none
  | '?' :: '!' :: _ => none
  | '?' :: '<' :: '=' :: _ => none
  | '?' :: '<' :: '!' :: _ => none
  | '?' :: 'P' :: '<' :: rest => named rest
  | '?' :: '<' :: rest => named rest
  | '?' :: rest =>
    match flags? false false [] rest with
    | some (fs, ':' :: rest) => some (.group { c with rest, mode := c.mode.withFlags fs })
    | some (f :: fs, ')' :: rest) =>
      some (.flags { c with rest, mode := c.mode.withFlags (f :: fs) })
    | _ => none
  | rest => some (.group { c with rest })

/-! ## Patterns -/

/-- A character that is not special, or one of those that stand for a set or a condition. Without
Unicode there is no set of all characters. -/
def plain? (m : Mode) (c : Char) : Option Pattern :=
  match c with
  | '.' => if m.unicode then some (.set anyStates 0) else none
  | '^' => some .assertion
  | '$' => some .assertion
  | c => some (.literal c.utf8Size)

/-- The pattern of what an escape stands for. -/
def Atom.pattern : Atom → Pattern
  | .char c => .literal c.utf8Size
  | .set n => .set n 0
  | .assertion => .assertion

mutual

/-- The branches up to a closing parenthesis or the end. -/
def branches? : (fuel : Nat) → Cursor → Option (List Pattern × Cursor)
  | 0, _ => none
  | fuel + 1, c => do
    let (p, c) ← branch? fuel [] c
    match c.rest with
    | '|' :: rest => do
      let (ps, c) ← branches? fuel { c with rest }
      some (p :: ps, c)
    | _ => some ([p], c)

/-- The rest of a branch, whose parts so far are given in reverse. -/
def branch? : (fuel : Nat) → List Pattern → Cursor → Option (Pattern × Cursor)
  | 0, _, _ => none
  | fuel + 1, parts, c => do
    let c := c.skip
    match ← repetition? c.mode c.rest with
    | some ((least, most), rest) =>
      match parts with
      | [] => none
      | p :: before =>
        if p.isRepeatable then
          branch? fuel (.repetition p least most :: before) { c with rest }
        else none
    | none =>
      match c.rest with
      | [] => some (ofParts parts.reverse, c)
      | ')' :: _ => some (ofParts parts.reverse, c)
      | '|' :: _ => some (ofParts parts.reverse, c)
      | '(' :: rest => do
        match ← opening? { c with rest } with
        | .flags after => branch? fuel (.flags :: parts) after
        | .group inside => do
          let (ps, last) ← branches? fuel inside
          match last.rest with
          | ')' :: rest =>
            branch? fuel (.group (ofBranches ps) :: parts)
              { rest, mode := c.mode, names := last.names }
          | _ => none
      | '[' :: rest => do
        let ((n, d), rest) ← set? c.mode (2 * rest.length + 2) rest
        branch? fuel (.set n d :: parts) { c with rest }
      | '\\' :: rest => do
        let (a, rest) ← escape? c.mode rest
        branch? fuel (a.pattern :: parts) { c with rest }
      | x :: rest => do
        let p ← plain? c.mode x
        branch? fuel (p :: parts) { c with rest }

end

/-- The pattern that a text writes. Each step takes at least half a character. -/
def read? (text : String) : Option Pattern := do
  let cs := text.toList
  let (ps, c) ← branches? (2 * cs.length + 2) { rest := cs }
  if c.rest.isEmpty then some (ofBranches ps) else none

/-- Whether a text is a pattern that can be used. -/
def isValid (text : String) : Bool := (read? text).any isUsable

end ContractDrift.Pattern
