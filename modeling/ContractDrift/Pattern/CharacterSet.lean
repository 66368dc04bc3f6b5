import ContractDrift.Pattern.Escape

/-!
# Sets of characters in patterns

Between brackets stand characters, ranges of them, classes and further sets, which are joined or put
together by the operators `&&`, `--` and `~~`. A bracket right after the opening one is a character,
and so are hyphens there and before the closing one.

* `Pattern.range?` — one character, class or range.
* `Pattern.set?` — the set after an opening bracket, and what follows it.
-/

namespace ContractDrift.Pattern

/-- The names of classes that may stand between colons. -/
def classNames : List String :=
  ["alnum", "alpha", "ascii", "blank", "cntrl", "digit", "graph", "lower", "print", "punct",
    "space", "upper", "word", "xdigit"]

/-- A named class, after its opening bracket and colon, and what follows it: whether it is a
complement. Other text there is no class. -/
def namedClass? (cs : List Char) : Option (Bool × List Char) :=
  let (negated, cs) := match cs with
    | '^' :: rest => (true, rest)
    | cs => (false, cs)
  let name := cs.takeWhile (· ≠ ':')
  match cs.drop name.length with
  | ':' :: ']' :: rest =>
    if classNames.contains (String.ofList name) then some (negated, rest) else none
  | _ => none

/-- One end of a range, or a class, and what follows it. -/
def item? (m : Mode) : List Char → Option (Atom × List Char)
  | [] => none
  | '\\' :: rest => escape? m rest
  | c :: rest => some (.char c, rest)

/-- Whether a character may be in a set. -/
def Mode.admits (m : Mode) (c : Char) : Bool := m.unicode || c.toNat < 0x80

/-- A character, a class or a range, with the states that it needs, and what follows it. The ends of
a range are characters in order, and the range does not extend to a closing bracket or a hyphen. -/
def range? (m : Mode) (cs : List Char) : Option (Nat × List Char) := do
  let (first, rest) ← item? m cs
  let rest := m.skip rest
  let alone : Option (Nat × List Char) := match first with
    | .char c => if m.admits c then some (1, rest) else none
    | .set n => some (n, rest)
    | .assertion => none
  match rest with
  | [] => none
  | '-' :: after =>
    match m.skip after with
    | ']' :: _ => alone
    | '-' :: _ => alone
    | after => do
      let (last, rest) ← item? m after
      match first, last with
      | .char a, .char b => if a ≤ b && m.admits a && m.admits b then some (2, rest) else none
      | _, _ => none
  | _ => alone

/-- What follows an operator between sets. -/
def operator? : List Char → Option (List Char)
  | '&' :: '&' :: rest => some rest
  | '-' :: '-' :: rest => some rest
  | '~' :: '~' :: rest => some rest
  | _ => none

/-- The number of hyphens at the beginning, and what follows them. -/
def hyphens (m : Mode) : Nat → List Char → Nat × List Char
  | 0, cs => (0, cs)
  | fuel + 1, cs =>
    match m.skip cs with
    | '-' :: rest => let (n, rest) := hyphens m fuel rest; (n + 1, rest)
    | cs => (0, cs)

mutual

/-- The set after an opening bracket, with its states and its nesting, and what follows the closing
one. Without Unicode a set cannot be given by what is not in it. -/
def set? (m : Mode) : (fuel : Nat) → List Char → Option ((Nat × Nat) × List Char)
  | 0, _ => none
  | fuel + 1, cs =>
    let (negated, cs) := match m.skip cs with
      | '^' :: rest => (true, rest)
      | cs => (false, cs)
    let (count, cs) := hyphens m cs.length cs
    let (count, cs) := match count, cs with
      | 0, ']' :: rest => (1, rest)
      | count, cs => (count, cs)
    if negated && !m.unicode then none
    else
      (setItems? m fuel (count + if negated then propertyStates else 0) 0 cs).map
        fun r => ((r.1.1, r.1.2 + 1), r.2)

/-- The rest of a set, of which the items so far need some states and have some nesting. -/
def setItems? (m : Mode) : (fuel states depth : Nat) → List Char →
    Option ((Nat × Nat) × List Char)
  | 0, _, _, _ => none
  | fuel + 1, states, depth, cs =>
    let cs := m.skip cs
    match operator? cs with
    | some rest => setItems? m fuel states depth rest
    | none =>
      match cs with
      | ']' :: rest => some ((states, depth), rest)
      | '[' :: rest =>
        let named := match rest with
          | ':' :: inner => namedClass? inner
          | _ => none
        match named with
        | some (negated, rest) =>
          if negated && !m.unicode then none else setItems? m fuel (states + 4) depth rest
        | none => do
          let ((n, d), rest) ← set? m fuel rest
          setItems? m fuel (states + n) (max depth d) rest
      | cs => do
        let (n, rest) ← range? m cs
        setItems? m fuel (states + n) depth rest

end

end ContractDrift.Pattern
