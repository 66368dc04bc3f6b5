import ContractDrift.Yaml.Scalar

/-!
# Tokens of YAML text

A YAML text as a list of tokens. Indentation has become explicit: the beginning and the end of each
block are tokens of their own. A key that only its colon reveals has a `key` token in front of it.

* `Token` — the tokens.
* `Lexer` — what a reader has to know at a place: the blocks that are open, and whether a key may
  have begun.
* `Token.listOf?` — the tokens of a text; nothing if it is malformed.
-/

namespace ContractDrift.Yaml

/-- A token. -/
inductive Token where
  /-- A directive that names the version of YAML. -/
  | version (major minor : Nat)
  /-- A directive that gives a handle for the beginning of tags. -/
  | tagHandle (handle expansion : String)
  | documentStart
  | documentEnd
  | blockSequence
  | blockMapping
  | blockEnd
  | flowSequence
  | flowSequenceEnd
  | flowMapping
  | flowMappingEnd
  | blockEntry
  | flowEntry
  | key
  | value
  | alias (name : String)
  | anchor (name : String)
  | tag (handle suffix : String)
  | scalar (style : Style) (text : String)
  deriving DecidableEq, Repr, Inhabited

/-! ## Names, tags and directives -/

/-- Whether a character may end the name of an anchor. -/
def endsName (cs : List Char) : Bool :=
  gapFollows cs || cs.head?.any fun c => ['?', ':', ',', ']', '\x7d', '%', '@', Char.ofNat 0x60].contains c

/-- The name of an anchor or alias and the place after it. -/
def anchorName? (c : Cursor) : Option (String × Cursor) :=
  let c := c.skip 1
  let name := c.takeWhile isNameChar
  let c := c.skip name.length
  if name ≠ [] ∧ endsName c.rest then some (String.ofList name, c) else none

/-- Whether a character may be part of a tag; inside of angle brackets some more may. -/
def isTagChar (enclosed : Bool) (c : Char) : Bool :=
  isNameChar c || [';', '/', '?', ':', '@', '&', '=', '+', '$', '.', '%', '!', '~', '*', '\'', '(',
    ')'].contains c || (enclosed && [',', '[', ']'].contains c)

/-- The character that bytes encode in UTF-8. -/
def utf8Char? : List Nat → Option Char
  | [a] => if a < 0x80 then Json.char? a else none
  | [a, b] => if 0xC0 ≤ a ∧ a < 0xE0 then Json.char? ((a - 0xC0) * 64 + (b - 0x80)) else none
  | [a, b, d] =>
    if 0xE0 ≤ a ∧ a < 0xF0 then Json.char? ((a - 0xE0) * 4096 + (b - 0x80) * 64 + (d - 0x80))
    else none
  | [a, b, d, e] =>
    if 0xF0 ≤ a ∧ a < 0xF8 then
      Json.char? ((a - 0xF0) * 262144 + (b - 0x80) * 4096 + (d - 0x80) * 64 + (e - 0x80))
    else none
  | _ => none

/-- The number of bytes of an encoded character, by its first byte. -/
def utf8Length? (a : Nat) : Option Nat :=
  if a < 0x80 then some 1
  else if 0xC0 ≤ a ∧ a < 0xE0 then some 2
  else if 0xE0 ≤ a ∧ a < 0xF0 then some 3
  else if 0xF0 ≤ a ∧ a < 0xF8 then some 4
  else none

/-- So many bytes written as a percent sign and two digits each, and the text after them. -/
def percentBytes? : Nat → List Char → Option (List Nat × List Char)
  | 0, cs => some ([], cs)
  | n + 1, '%' :: a :: b :: rest => do
    let x ← Json.hexNumber? [a, b]
    let (xs, rest) ← percentBytes? n rest
    some (x :: xs, rest)
  | _, _ => none

/-- The characters of a tag with its percent codes resolved. -/
def tagText? : Nat → List Char → Option (List Char)
  | 0, _ => none
  | _ + 1, [] => some []
  | fuel + 1, '%' :: a :: b :: rest => do
    let n ← (← Json.hexNumber? [a, b]) |> utf8Length?
    let (bytes, rest) ← percentBytes? n ('%' :: a :: b :: rest)
    let x ← if bytes.drop 1 |>.all fun y => 0x80 ≤ y && y < 0xC0 then utf8Char? bytes else none
    let text ← tagText? fuel rest
    some (x :: text)
  | _ + 1, '%' :: _ => none
  | fuel + 1, x :: rest => (tagText? fuel rest).map (x :: ·)

/-- The text of a tag and the place after it. -/
def tagUri? (enclosed : Bool) (c : Cursor) : Option (List Char × Cursor) := do
  let raw := c.takeWhile (isTagChar enclosed)
  let text ← tagText? (raw.length + 1) raw
  some (text, c.skip raw.length)

/-- A tag token and the place after it. -/
def tag? (flow : Bool) (c : Cursor) : Option (Token × Cursor) := do
  let (token, c) ←
    if (c.rest.drop 1).head? = some '<' then do
      let (suffix, c) ← tagUri? true (c.skip 2)
      if suffix ≠ [] ∧ c.rest.head? = some '>' then
        some (Token.tag "" (String.ofList suffix), c.skip 1)
      else none
    else
      let name := (c.skip 1).takeWhile isNameChar
      let after := c.skip (1 + name.length)
      if after.rest.head? = some '!' then do
        let (suffix, c) ← tagUri? false (after.skip 1)
        if suffix = [] then none
        else some (Token.tag (String.ofList ('!' :: name ++ ['!'])) (String.ofList suffix), c)
      else do
        let (suffix, c) ← tagUri? false (c.skip 1)
        some (if suffix = [] then Token.tag "" "!" else Token.tag "!" (String.ofList suffix), c)
  if (flow && c.rest.head? = some ',') || gapFollows c.rest then some (token, c) else none

/-- The number of a version and the place after it. -/
def versionNumber? (c : Cursor) : Option (Nat × Cursor) :=
  let ds := c.takeWhile Char.isDigit
  if ds = [] ∨ 9 < ds.length then none else some (Numeral.natural ds, c.skip ds.length)

/-- What follows the name of a directive. -/
def directiveValue? (name : String) (c : Cursor) : Option (Token × Cursor) :=
  match name with
  | "YAML" => do
    let (major, c) ← versionNumber? (c.skipWhile isSpace)
    if c.rest.head? = some '.' then
      let (minor, c) ← versionNumber? (c.skip 1)
      some (.version major minor, c)
    else none
  | "TAG" => do
    let c := c.skipWhile isSpace
    if c.rest.head? ≠ some '!' then none
    else
      let name := (c.skip 1).takeWhile isNameChar
      let after := c.skip (1 + name.length)
      let (handle, c) ←
        if after.rest.head? = some '!' then some ('!' :: name ++ ['!'], after.skip 1)
        else if name = [] then some (['!'], after)
        else none
      if c.rest.head?.any isSpace then
        let (expansion, c) ← tagUri? true (c.skipWhile isSpace)
        if expansion ≠ [] ∧ gapFollows c.rest then
          some (.tagHandle (String.ofList handle) (String.ofList expansion), c)
        else none
      else none
  | _ => none

/-- A directive and the place in the line after it. -/
def directive? (c : Cursor) : Option (Token × Cursor) := do
  let c := c.skip 1
  let name := c.takeWhile isNameChar
  let c := c.skip name.length
  if name = [] || !gapFollows c.rest then none
  else
    let (token, c) ← directiveValue? (String.ofList name) c
    let c := c.skipWhile isSpace
    let c := if c.rest.head? = some '#' then c.skipWhile fun x => !isBreak x else c
    if c.rest = [] || c.rest.head?.any isBreak then some (token, c.skipBreak) else none

/-! ## The state of a reader -/

/-- A place where a key may have begun. -/
structure PossibleKey where
  /-- Whether nothing but a key can stand there. -/
  required : Bool
  /-- The number of tokens before it. -/
  tokens : Nat
  line : Nat
  column : Nat
  offset : Nat

namespace PossibleKey

/-- The greatest distance from the beginning of a key to its colon. -/
def reach : Nat := 1024

/-- Whether a colon at a place is too far away: a key stands in one line and is short. -/
def isOutOfReach (k : PossibleKey) (c : Cursor) : Bool :=
  k.line < c.line || k.offset + reach < c.offset

end PossibleKey

/-- What a reader of tokens knows. Columns of blocks are counted from `-1`, the whole document. -/
structure Lexer where
  cursor : Cursor
  /-- The tokens so far, the last one first. -/
  tokens : List Token := []
  /-- Their number. -/
  count : Nat := 0
  /-- The column of the innermost block. -/
  indent : Int := -1
  /-- The columns of the blocks around it. -/
  outer : List Int := []
  /-- Whether a key may begin here. -/
  keyAllowed : Bool := true
  /-- Where a key may have begun, in the innermost flow collection or else in the block. -/
  key? : Option PossibleKey := none
  /-- The same for what is around the flow collection. -/
  outerKeys : List (Option PossibleKey) := []

namespace Lexer

/-- Whether the place is inside of a flow collection. -/
def inFlow (s : Lexer) : Bool := !s.outerKeys.isEmpty

/-- Append a token. -/
def push (t : Token) (s : Lexer) : Lexer := { s with tokens := t :: s.tokens, count := s.count + 1 }

/-- Put a token in front of those that were read after the first `n`. -/
def pushAt (n : Nat) (t : Token) (s : Lexer) : Lexer :=
  let later := s.count - n
  { s with tokens := s.tokens.take later ++ t :: s.tokens.drop later, count := s.count + 1 }

/-- Move on to a place. -/
def goto (c : Cursor) (s : Lexer) : Lexer := { s with cursor := c }

/-- Move on by so many characters of the line. -/
def skip (n : Nat) (s : Lexer) : Lexer := s.goto (s.cursor.skip n)

/-- Say whether a key may begin next. -/
def allowKey (b : Bool) (s : Lexer) : Lexer := { s with keyAllowed := b }

/-- Open a block at a column, unless one is open there or the place is in a flow collection. The
token that opens it goes in front of those after the first `n`. -/
def openBlock (column n : Nat) (t : Token) (s : Lexer) : Lexer :=
  if !s.inFlow && s.indent < column then
    { s.pushAt n t with indent := column, outer := s.indent :: s.outer }
  else s

/-- The innermost of the blocks that a column is not left of, those around it, and the number of
blocks that end. -/
def endedBlocks (column : Int) : Int → List Int → Int × List Int × Nat
  | indent, [] => (indent, [], 0)
  | indent, next :: outer =>
    if column < indent then
      let (i, o, n) := endedBlocks column next outer
      (i, o, n + 1)
    else (indent, next :: outer, 0)

/-- Close the blocks that a column is left of. -/
def closeBlocks (column : Int) (s : Lexer) : Lexer :=
  if s.inFlow then s
  else
    let (indent, outer, n) := endedBlocks column s.indent s.outer
    { s with
      indent, outer, tokens := List.replicate n .blockEnd ++ s.tokens, count := s.count + n }

/-- Give up the possible key; nothing if it has to be one. -/
def dropKey? (s : Lexer) : Option Lexer :=
  if s.key?.any fun k => k.required then none else some { s with key? := none }

/-- Note that a key may begin here. -/
def saveKey? (s : Lexer) : Option Lexer :=
  if s.keyAllowed then do
    let s ← s.dropKey?
    let c := s.cursor
    some { s with
      key? := some
        { required := !s.inFlow && s.indent == c.column
          tokens := s.count, line := c.line, column := c.column, offset := c.offset } }
  else some s

/-- Give up the possible keys that are out of reach; nothing if one of them has to be a key. -/
def forgetKeys? (s : Lexer) : Option Lexer :=
  let gone (k : Option PossibleKey) : Bool := k.any fun k => k.isOutOfReach s.cursor
  if (s.key? :: s.outerKeys).any fun k => gone k && k.any fun k => k.required then none
  else
    some { s with
      key? := if gone s.key? then none else s.key?
      outerKeys := s.outerKeys.map fun k => if gone k then none else k }

/-- The place of the next token: after blanks, comments and breaks. A tab is a blank only where no
key may begin. After a break in block context a key may begin. -/
def toNextToken : Nat → Lexer → Lexer
  | 0, s => s
  | fuel + 1, s =>
    let c := s.cursor
    let c := c.skipWhile fun x => x = ' ' || (x = '\t' && (s.inFlow || !s.keyAllowed))
    let c := if c.rest.head? = some '#' then c.skipWhile fun x => !isBreak x else c
    match c.takeBreak? with
    | some (_, c) => toNextToken fuel { s with cursor := c, keyAllowed := s.keyAllowed || !s.inFlow }
    | none => s.goto c

/-! ## Reading one token -/

/-- What the end of the text closes. -/
def finish? (s : Lexer) : Option Lexer := (s.closeBlocks (-1)).dropKey?

/-- A token at the beginning of a line that ends all blocks. -/
def documentToken? (t : Token) (s : Lexer) : Option Lexer := do
  let s ← (s.closeBlocks (-1)).dropKey?
  some ((s.allowKey false).push t |>.skip 3)

/-- A directive line. -/
def directiveToken? (s : Lexer) : Option Lexer := do
  let s ← (s.closeBlocks (-1)).dropKey?
  let (t, c) ← directive? s.cursor
  some ((s.allowKey false).push t |>.goto c)

/-- The opening bracket of a flow collection. -/
def openFlow? (t : Token) (s : Lexer) : Option Lexer := do
  let s ← s.saveKey?
  let s := { s with key? := none, outerKeys := s.key? :: s.outerKeys }
  some ((s.allowKey true).push t |>.skip 1)

/-- The closing bracket of a flow collection. -/
def closeFlow? (t : Token) (s : Lexer) : Option Lexer := do
  let s ← s.dropKey?
  let s := match s.outerKeys with
    | [] => s
    | k :: outerKeys => { s with key? := k, outerKeys }
  some ((s.allowKey false).push t |>.skip 1)

/-- The comma between the entries of a flow collection. -/
def flowEntry? (s : Lexer) : Option Lexer := do
  let s ← s.dropKey?
  some ((s.allowKey true).push .flowEntry |>.skip 1)

/-- The dash before an entry of a block sequence. -/
def blockEntry? (s : Lexer) : Option Lexer :=
  if !s.inFlow && !s.keyAllowed then none
  else do
    let s := s.openBlock s.cursor.column s.count .blockSequence
    let s ← s.dropKey?
    some ((s.allowKey true).push .blockEntry |>.skip 1)

/-- The question mark before a key. -/
def explicitKey? (s : Lexer) : Option Lexer :=
  if !s.inFlow && !s.keyAllowed then none
  else do
    let s := s.openBlock s.cursor.column s.count .blockMapping
    let s ← s.dropKey?
    some ((s.allowKey (!s.inFlow)).push .key |>.skip 1)

/-- The colon before a value. It makes a key of what began at the possible key, if there is one. -/
def value? (s : Lexer) : Option Lexer :=
  match s.key? with
  | some k =>
    let s := s.pushAt k.tokens .key
    let s := s.openBlock k.column k.tokens .blockMapping
    some (({ s with key? := none }.allowKey false).push .value |>.skip 1)
  | none =>
    if !s.inFlow && !s.keyAllowed then none
    else
      let s := s.openBlock s.cursor.column s.count .blockMapping
      some ((s.allowKey (!s.inFlow)).push .value |>.skip 1)

/-- An anchor or an alias. -/
def anchorToken? (make : String → Token) (s : Lexer) : Option Lexer := do
  let s ← s.saveKey?
  let (name, c) ← anchorName? s.cursor
  some ((s.allowKey false).push (make name) |>.goto c)

/-- A tag. -/
def tagToken? (s : Lexer) : Option Lexer := do
  let s ← s.saveKey?
  let (t, c) ← tag? s.inFlow s.cursor
  some ((s.allowKey false).push t |>.goto c)

/-- The column right of the innermost block. -/
def least (s : Lexer) : Nat := (s.indent + 1).toNat

/-- A block scalar. -/
def blockScalar? (style : Style) (s : Lexer) : Option Lexer := do
  let s ← s.dropKey?
  let (text, c) ← block? style s.least s.cursor
  some ((s.allowKey true).push (.scalar style text) |>.goto c)

/-- A scalar in quotes. -/
def quotedScalar? (quote : Char) (s : Lexer) : Option Lexer := do
  let s ← s.saveKey?
  let (text, c) ← quoted? quote s.cursor
  some ((s.allowKey false).push (.scalar .quoted text) |>.goto c)

/-- A plain scalar. One that ends in a line after its last word may be followed by a key. -/
def plainScalar? (s : Lexer) : Option Lexer := do
  let s ← s.saveKey?
  let (text, broken, c) ← plain? s.inFlow s.least s.cursor
  some ((s.allowKey broken).push (.scalar .plain text) |>.goto c)

/-- Whether a plain scalar may begin with a character. -/
def startsPlain (inFlow : Bool) (c : Char) (rest : List Char) : Bool :=
  if c = '-' then !rest.head?.any isSpace
  else if c = '?' || c = ':' then !inFlow && !gapFollows rest
  else
    !([',', '[', ']', '\x7b', '\x7d', '#', '&', '*', '!', '|', '>', '\'', '"', '%', '@',
      Char.ofNat 0x60].contains c || isGap c)

/-- Read the token at a place that is not the end. -/
def read? (s : Lexer) : Option Lexer :=
  match s.cursor.rest with
  | [] => none
  | c :: rest =>
    if s.cursor.column = 0 ∧ c = '%' then s.directiveToken?
    else if s.cursor.isMarker '-' then s.documentToken? .documentStart
    else if s.cursor.isMarker '.' then s.documentToken? .documentEnd
    else if c = '[' then s.openFlow? .flowSequence
    else if c = '\x7b' then s.openFlow? .flowMapping
    else if c = ']' then s.closeFlow? .flowSequenceEnd
    else if c = '\x7d' then s.closeFlow? .flowMappingEnd
    else if c = ',' then s.flowEntry?
    else if c = '-' && gapFollows rest then s.blockEntry?
    else if c = '?' && (s.inFlow || gapFollows rest) then s.explicitKey?
    else if c = ':' && (s.inFlow || gapFollows rest) then s.value?
    else if c = '*' then s.anchorToken? .alias
    else if c = '&' then s.anchorToken? .anchor
    else if c = '!' then s.tagToken?
    else if c = '|' && !s.inFlow then s.blockScalar? .literal
    else if c = '>' && !s.inFlow then s.blockScalar? .folded
    else if c = '\'' || c = '"' then s.quotedScalar? c
    else if startsPlain s.inFlow c rest then s.plainScalar?
    else none

/-- Read all tokens from a place on. -/
def readAll? : Nat → Lexer → Option Lexer
  | 0, _ => none
  | fuel + 1, s => do
    let s := toNextToken (s.cursor.rest.length + 1) s
    let s ← s.forgetKeys?
    let s := s.closeBlocks s.cursor.column
    if s.cursor.rest.isEmpty then s.finish? else readAll? fuel (← s.read?)

end Lexer

/-- The tokens of a text. -/
def Token.listOf? (text : String) : Option (List Token) :=
  let cs := withoutMark text.toList
  if cs.all isText then
    (Lexer.readAll? (cs.length + 1) { cursor := { rest := cs } }).map fun s => s.tokens.reverse
  else none

end ContractDrift.Yaml
