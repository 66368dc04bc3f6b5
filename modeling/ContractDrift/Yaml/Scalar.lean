import ContractDrift.Json.Reader
import ContractDrift.Yaml.Cursor

/-!
# Scalars in YAML text

The three ways to write a scalar: plain, where the context decides which characters end it, in
quotes, and as a block of indented lines. Each reader starts at the first character of the scalar
and gives its text and the place after it; malformed text gives nothing.

* `Style` — how a scalar is written, which later decides what a word such as `true` means.
* `plain?`, `quoted?`, `block?` — the readers.
-/

namespace ContractDrift.Yaml

/-- How a scalar is written. -/
inductive Style where
  | plain
  | quoted
  /-- A block that keeps its line breaks. -/
  | literal
  /-- A block that joins its lines. -/
  | folded
  deriving DecidableEq, Repr, Inhabited

/-! ## Plain scalars -/

/-- Whether a character separates or encloses in flow context. -/
def isFlowMark (c : Char) : Bool := c = ',' || c = '[' || c = ']' || c = '\x7b' || c = '\x7d'

/-- The characters of a plain scalar up to the next gap or to what ends the scalar. In flow context a
colon must not stand in front of a flow mark or a question mark. -/
def plainWord? (flow : Bool) : List Char → Option (List Char)
  | [] => some []
  | c :: rest =>
    if isGap c then some []
    else if flow && c = ':' && rest.head?.any fun d => isFlowMark d || d = '?' then none
    else if (c = ':' && gapFollows rest) || (flow && isFlowMark c) then some []
    else (plainWord? flow rest).map (c :: ·)

/-- The rest of a plain scalar after a gap. The answer also says whether the scalar ends in a line
after the one of its last word. -/
def plainRest? (flow : Bool) (least : Nat) :
    Nat → Gap → Cursor → Option (List Char × Bool × Cursor)
  | 0, _, _ => none
  | fuel + 1, gap, c =>
    if c.isDocumentMarker || c.rest.head? = some '#' then some ([], gap.breaks, c)
    else do
      let word ← plainWord? flow c.rest
      if word = [] then some ([], gap.breaks, c)
      else
        let c := c.skip word.length
        if c.rest.head?.any isGap then
          let (next, c) ← Gap.read? least (c.rest.length + 1) false c
          if !flow && c.column < least then some (gap.text ++ word, next.breaks, c)
          else
            let (text, broken, c) ← plainRest? flow least fuel next c
            some (gap.text ++ word ++ text, broken, c)
        else some (gap.text ++ word, false, c)

/-- A plain scalar: its text, whether it ends in a line after its last word, and the place after
it. In block context its further lines begin at column `least` or right of it. -/
def plain? (flow : Bool) (least : Nat) (c : Cursor) : Option (String × Bool × Cursor) :=
  (plainRest? flow least (c.rest.length + 1) {} c).map fun (text, broken, c) =>
    (String.ofList text, broken, c)

/-! ## Quoted scalars -/

/-- The character that a letter after a backslash stands for. -/
def escape? (c : Char) : Option Char :=
  match c with
  | '0' => some (Char.ofNat 0)
  | 'a' => some (Char.ofNat 0x07)
  | 'b' => some (Char.ofNat 0x08)
  | 't' => some '\t'
  | '\t' => some '\t'
  | 'n' => some '\n'
  | 'v' => some (Char.ofNat 0x0B)
  | 'f' => some (Char.ofNat 0x0C)
  | 'r' => some '\r'
  | 'e' => some (Char.ofNat 0x1B)
  | ' ' => some ' '
  | '"' => some '"'
  | '/' => some '/'
  | '\\' => some '\\'
  | 'N' => some (Char.ofNat 0x85)
  | '_' => some (Char.ofNat 0xA0)
  | 'L' => some (Char.ofNat 0x2028)
  | 'P' => some (Char.ofNat 0x2029)
  | _ => none

/-- The number of hexadecimal digits after a letter that announces a code point. -/
def codeLength? (c : Char) : Option Nat :=
  match c with
  | 'x' => some 2
  | 'u' => some 4
  | 'U' => some 8
  | _ => none

/-- The character written with a code point in so many hexadecimal digits. -/
def code? (length : Nat) (cs : List Char) : Option Char :=
  let ds := cs.take length
  if ds.length = length then (Json.hexNumber? ds).bind Json.char? else none

/-- The characters of a quoted scalar up to the next gap or the closing quote. The answer also says
whether they end in an escaped line break. -/
def quotedWord? (quote : Char) : Nat → Cursor → Option (List Char × Bool × Cursor)
  | 0, _ => none
  | fuel + 1, c =>
    match c.rest with
    | [] => some ([], false, c)
    | ch :: rest =>
      if isGap ch then some ([], false, c)
      else if ch = quote then
        if quote = '\'' ∧ rest.head? = some '\'' then
          (quotedWord? quote fuel (c.skip 2)).map fun (w, e, c) => ('\'' :: w, e, c)
        else some ([], false, c)
      else if quote = '"' ∧ ch = '\\' then
        match rest with
        | [] => none
        | d :: rest =>
          if isBreak d then some ([], true, (c.skip 1).skipBreak)
          else
            match codeLength? d with
            | some n => do
              let x ← code? n rest
              let (w, e, c) ← quotedWord? quote fuel (c.skip (2 + n))
              some (x :: w, e, c)
            | none => do
              let x ← escape? d
              let (w, e, c) ← quotedWord? quote fuel (c.skip 2)
              some (x :: w, e, c)
      else (quotedWord? quote fuel (c.skip 1)).map fun (w, e, c) => (ch :: w, e, c)

/-- The rest of a quoted scalar and the place after its closing quote. -/
def quotedRest? (quote : Char) : Nat → Cursor → Option (List Char × Cursor)
  | 0, _ => none
  | fuel + 1, c =>
    if c.isDocumentMarker || c.rest.isEmpty then none
    else do
      let (word, broken, c) ← quotedWord? quote (c.rest.length + 1) c
      if c.rest.head? = some quote then some (word, c.skip 1)
      else
        let (gap, c) ← Gap.read? 0 (c.rest.length + 1) broken c
        let (text, c) ← quotedRest? quote fuel c
        some (word ++ gap.text ++ text, c)

/-- A scalar in quotes: its text and the place after it. -/
def quoted? (quote : Char) (c : Cursor) : Option (String × Cursor) :=
  (quotedRest? quote (c.rest.length + 1) (c.skip 1)).map fun (text, c) => (String.ofList text, c)

/-! ## Block scalars -/

/-- What is kept of the line breaks at the end of a block. -/
inductive Chomping where
  | strip
  /-- The break of the last line. -/
  | clip
  | keep
  deriving DecidableEq, Repr

/-- The chomping that a sign asks for. -/
def Chomping.ofSign? (c : Char) : Option Chomping :=
  if c = '+' then some .keep else if c = '-' then some .strip else none

/-- The indentation that a digit asks for; zero is none. -/
def indentation? (c : Char) : Option (Option Nat) :=
  if c = '0' then none else if c.isDigit then some (some (c.toNat - 48)) else some none

/-- The signs after the indicator of a block: chomping and indentation, in either order. -/
def blockSigns? (c : Cursor) : Option (Chomping × Option Nat × Cursor) :=
  match c.rest with
  | [] => some (.clip, none, c)
  | a :: rest => do
    match Chomping.ofSign? a with
    | some chomping =>
      match rest with
      | [] => some (chomping, none, c.skip 1)
      | b :: _ =>
        let n ← indentation? b
        some (chomping, n, c.skip (if n.isSome then 2 else 1))
    | none =>
      match ← indentation? a with
      | none => some (.clip, none, c)
      | some n =>
        match rest.head?.bind Chomping.ofSign? with
        | some chomping => some (chomping, some n, c.skip 2)
        | none => some (.clip, some n, c.skip 1)

/-- The empty lines before a line of a block: their breaks, the greatest column that was reached,
and the place of the line. Spaces are taken up to the indentation, or all if it is not known yet.
A tab in their place is an error. -/
def blockBreaks? (indent : Option Nat) :
    Nat → Nat → Cursor → Option (List Char × Nat × Cursor)
  | 0, _, _ => none
  | fuel + 1, greatest, c =>
    let spaces := c.takeWhile (· = ' ')
    let n := match indent with
      | none => spaces.length
      | some i => min spaces.length (i - c.column)
    let c := c.skip n
    let greatest := max greatest c.column
    if c.rest.head? = some '\t' ∧ indent.all (c.column < ·) then none
    else
      match c.takeBreak? with
      | none => some ([], greatest, c)
      | some (b, c) => do
        let (breaks, greatest, c) ← blockBreaks? indent fuel greatest c
        some (b :: breaks, greatest, c)

/-- The lines of a block from a place on. `joint` is the break after the line before, `breaks` are
those of empty lines after it, and `indented` says whether that line began with a blank. The answer
also has the breaks that are left at the end. -/
def blockLines? (style : Style) (indent : Nat) :
    Nat → Option Char → List Char → Bool → Cursor →
      Option (List Char × Option Char × List Char × Cursor)
  | 0, _, _, _, _ => none
  | fuel + 1, joint, breaks, indented, c =>
    if c.column ≠ indent ∨ c.rest = [] then some ([], joint, breaks, c)
    else do
      let blank := c.rest.head?.any isSpace
      let lead :=
        if style = .folded && joint = some '\n' && !indented && !blank then
          (if breaks.isEmpty then [' '] else [])
        else joint.toList
      let line := c.takeWhile fun x => !isBreak x
      let c := c.skip line.length
      let next := c.takeBreak?
      let c := (next.map Prod.snd).getD c
      let (after, _, c) ← blockBreaks? (some indent) (c.rest.length + 1) 0 c
      let (text, joint, left, c) ←
        blockLines? style indent fuel (next.map Prod.fst) after blank c
      some (lead ++ breaks ++ line ++ text, joint, left, c)

/-- A block scalar: its text and the place after it. `least` is the column right of the enclosing
block. -/
def block? (style : Style) (least : Nat) (c : Cursor) : Option (String × Cursor) := do
  let (chomping, wanted, c) ← blockSigns? (c.skip 1)
  let c := c.skipWhile isSpace
  let c := if c.rest.head? = some '#' then c.skipWhile fun x => !isBreak x else c
  if !(c.rest = [] || c.rest.head?.any isBreak) then none
  else
    let c := c.skipBreak
    let indent := wanted.map fun n => if least = 0 then n else least - 1 + n
    let (breaks, greatest, c) ← blockBreaks? indent (c.rest.length + 1) 0 c
    let indent := indent.getD (max greatest (max least 1))
    let (text, joint, left, c) ←
      blockLines? style indent (c.rest.length + 1) none breaks false c
    let tail := match chomping with
      | .strip => []
      | .clip => joint.toList
      | .keep => joint.toList ++ left
    some (String.ofList (text ++ tail), c)

end ContractDrift.Yaml
