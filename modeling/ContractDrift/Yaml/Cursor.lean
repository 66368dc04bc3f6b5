/-!
# Places in a YAML text

A reader of YAML text needs to know, besides the characters that are left, in which line and column
it is: indentation carries the structure of a document, and what may be a key must stand in one
line.

* `Yaml.isText` — the characters that a document may contain.
* `Yaml.isBreak`, `Yaml.isSpace` — line breaks, and the blanks within a line.
* `Cursor` — a place; `Cursor.skip`, `Cursor.takeWhile`, `Cursor.takeBreak?` move on.
* `Gap` — the blanks and breaks between two words of a scalar, and the text that they stand for.
-/

namespace ContractDrift.Yaml

/-! ## Characters -/

/-- Whether a document may contain a character. -/
def isText (c : Char) : Bool :=
  let n := c.toNat
  n = 0x09 || n = 0x0A || n = 0x0D || (0x20 ≤ n && n ≤ 0x7E) || n = 0x85 ||
    (0xA0 ≤ n && n ≤ 0xD7FF) || (0xE000 ≤ n && n ≤ 0xFFFD) || 0x10000 ≤ n

/-- Whether a character ends a line. -/
def isBreak (c : Char) : Bool :=
  let n := c.toNat
  n = 0x0A || n = 0x0D || n = 0x85 || n = 0x2028 || n = 0x2029

/-- Whether a character is a blank within a line. -/
def isSpace (c : Char) : Bool := c = ' ' || c = '\t'

/-- Whether a character is a blank or ends a line. -/
def isGap (c : Char) : Bool := isSpace c || isBreak c

/-- Whether a character may be part of a name. -/
def isNameChar (c : Char) : Bool := c.isAlphanum || c = '_' || c = '-'

/-- Whether the text is at its end or a blank or break follows. -/
def gapFollows : List Char → Bool
  | [] => true
  | c :: _ => isGap c

/-- The byte order mark, which may stand in front of a text. -/
def byteOrderMark : Char := Char.ofNat 0xFEFF

/-- A text without the byte order mark in front of it. -/
def withoutMark : List Char → List Char
  | [] => []
  | c :: rest => if c = byteOrderMark then rest else c :: rest

/-! ## Places -/

/-- A place in a text. -/
structure Cursor where
  /-- What is left of the text. -/
  rest : List Char
  line : Nat := 0
  column : Nat := 0
  /-- The number of characters before. -/
  offset : Nat := 0
  deriving Repr, Inhabited

namespace Cursor

/-- The place after so many characters of the line. -/
def skip (n : Nat) (c : Cursor) : Cursor :=
  { c with rest := c.rest.drop n, column := c.column + n, offset := c.offset + n }

/-- The characters of the line that satisfy a condition. -/
def takeWhile (p : Char → Bool) (c : Cursor) : List Char := c.rest.takeWhile p

/-- The place after the characters that satisfy a condition. -/
def skipWhile (p : Char → Bool) (c : Cursor) : Cursor := c.skip (c.takeWhile p).length

/-- The place in the next line, so many characters on. -/
def nextLine (n : Nat) (c : Cursor) : Cursor :=
  { rest := c.rest.drop n, line := c.line + 1, column := 0, offset := c.offset + n }

/-- The line break at a place as it counts in a scalar, and the place after it. Carriage return and
line feed are one break, and all breaks count as a line feed but the two separators of Unicode. -/
def takeBreak? (c : Cursor) : Option (Char × Cursor) :=
  match c.rest with
  | '\r' :: '\n' :: _ => some ('\n', c.nextLine 2)
  | b :: _ =>
    if isBreak b then
      some (if b.toNat = 0x2028 ∨ b.toNat = 0x2029 then b else '\n', c.nextLine 1)
    else none
  | [] => none

/-- The place after a line break, if there is one. -/
def skipBreak (c : Cursor) : Cursor := (c.takeBreak?.map Prod.snd).getD c

/-- Whether a line begins with three of a character and a blank, a break or the end. -/
def isMarker (mark : Char) (c : Cursor) : Bool :=
  match c.rest with
  | a :: b :: d :: rest => c.column == 0 && a == mark && b == mark && d == mark && gapFollows rest
  | _ => false

/-- Whether a marker of a document's beginning or end is at this place. -/
def isDocumentMarker (c : Cursor) : Bool := c.isMarker '-' || c.isMarker '.'

end Cursor

/-! ## Gaps -/

/-- Blanks and breaks inside of a scalar. -/
structure Gap where
  /-- The blanks before any break. -/
  blanks : List Char := []
  /-- Whether the next word is in another line. -/
  breaks : Bool := false
  /-- The first break. -/
  first : Option Char := none
  /-- The breaks after the first one. -/
  more : List Char := []

namespace Gap

/-- The text that a gap stands for: its blanks, or folded breaks. A single break is a space, and of
several ones the first is left out. -/
def text (g : Gap) : List Char :=
  if !g.breaks then g.blanks
  else if g.first = some '\n' then (if g.more.isEmpty then [' '] else g.more)
  else g.first.toList ++ g.more

/-- The gap at a place and the place after it. `breaks` says whether a break came before. In a line
of its own a tab left of column `least` is an error. -/
def read? (least : Nat) : Nat → Bool → Cursor → Option (Gap × Cursor)
  | 0, _, _ => none
  | fuel + 1, breaks, c =>
    match c.rest with
    | [] => some ({ breaks }, c)
    | ch :: _ =>
      if isSpace ch then
        if breaks then
          if ch = '\t' ∧ c.column < least then none else read? least fuel true (c.skip 1)
        else do
          let (g, c) ← read? least fuel false (c.skip 1)
          some ({ g with blanks := ch :: g.blanks }, c)
      else
        match c.takeBreak? with
        | none => some ({ breaks }, c)
        | some (b, c) => do
          let (g, c) ← read? least fuel true c
          if breaks then some ({ g with more := b :: g.more }, c)
          else some ({ g with first := some b }, c)

end Gap

end ContractDrift.Yaml
