import ContractDrift.Json.Record
import ContractDrift.Text.Count
import ContractDrift.Yaml.Tree

/-!
# What a scalar means

The core schema of YAML decides from the text of a plain scalar whether it is null, a truth value,
a number or a text; quoted and block scalars are texts, and a tag can force one reading. Integers
have a place if 64 bits hold them, signed or unsigned. Larger ones have none up to 128 bits, and
beyond that the nearest fraction stands for them.

* `Atom`, `Atom.ofScalar?` — what a scalar means.
* `integer?`, `real?`, `truth?`, `isNullWord` — the readings of a text.
* `isLocalTag` — tags of the document's own, which make a value unreadable as plain data.
-/

namespace ContractDrift.Yaml

/-- What a scalar means. -/
inductive Atom where
  | null
  | bool (value : Bool)
  | int (value : Int)
  | real (value : Binary64)
  | text (value : String)
  deriving DecidableEq, Repr, Inhabited

/-! ## Tags -/

/-- The tag of a type of the core schema. -/
def coreTag (name : String) : String := "tag:yaml.org,2002:" ++ name

/-- Whether a tag belongs to the document itself. -/
def isLocalTag (tag : Option String) : Bool := tag.any fun t => t.toList.head? = some '!'

/-! ## Readings of a text -/

/-- Whether a text is one of the words for null. -/
def isNullWord (s : String) : Bool := ["null", "Null", "NULL", "~"].contains s

/-- The truth value that a text names. -/
def truth? (s : String) : Option Bool :=
  if ["true", "True", "TRUE"].contains s then some true
  else if ["false", "False", "FALSE"].contains s then some false
  else none

/-- Whether a text consists of several digits with a zero in front, after an optional sign. Such a
text is no number. -/
def isPaddedNumber (cs : List Char) : Bool :=
  let ds := match cs with
    | '+' :: rest => rest
    | '-' :: rest => rest
    | cs => cs
  match ds with
  | '0' :: d :: rest => (d :: rest).all Char.isDigit
  | _ => false

/-- The natural that a text without sign writes, in the base that it names. -/
def magnitude? (cs : List Char) : Option Nat :=
  match cs with
  | '0' :: 'x' :: ds => Text.natural? 16 ds
  | '0' :: 'o' :: ds => Text.natural? 8 ds
  | '0' :: 'b' :: ds => Text.natural? 2 ds
  | ds => Text.natural? 10 ds

/-- The natural that a text writes, with an optional plus sign. -/
def natural? (cs : List Char) : Option Nat :=
  if isPaddedNumber cs then none
  else
    match cs with
    | '+' :: rest => magnitude? rest
    | cs => magnitude? cs

/-- The integer that a text writes, of any size. -/
def integer? (cs : List Char) : Option Int :=
  match cs with
  | '-' :: rest =>
    if isPaddedNumber cs then none else (magnitude? rest).map fun n => -(n : Int)
  | cs => (natural? cs).map Int.ofNat

/-- The fraction that a text writes; infinities and NaN have words of their own. -/
def real? (cs : List Char) : Option Binary64 :=
  let s := String.ofList cs
  let unsigned := match cs with
    | '+' :: rest => rest
    | cs => cs
  if [".inf", ".Inf", ".INF"].contains (String.ofList unsigned) then some (.infinite false)
  else if ["-.inf", "-.Inf", "-.INF"].contains s then some (.infinite true)
  else if [".nan", ".NaN", ".NAN"].contains s then some .nan
  else if cs.head? = some '+' ∧ (unsigned.head? = some '+' ∨ unsigned.head? = some '-') then none
  else ((Numeral.read? unsigned).map Numeral.value).filter Binary64.isFinite

/-- An integer as an atom; nothing if it is too large for its place and too small for a fraction. -/
def Atom.ofInteger? (n : Int) : Option (Option Atom) :=
  if Json.inIntegerRange n then some (some (.int n))
  else if -Int.ofNat (Nat.pow 2 127) ≤ n ∧ n < Int.ofNat (Nat.pow 2 128) then some none
  else none

/-- What a plain scalar without a tag means. -/
def Atom.ofPlain? (s : String) : Option Atom :=
  let cs := s.toList
  if s = "" || isNullWord s then some .null
  else
    match truth? s with
    | some b => some (.bool b)
    | none =>
      match (integer? cs).bind Atom.ofInteger? with
      | some atom => atom
      | none =>
        if isPaddedNumber cs then some (.text s)
        else
          match real? cs with
          | some x => some (.real x)
          | none => some (.text s)

/-- What a scalar means; nothing if it is not what its tag says. -/
def Atom.ofScalar? (tag : Option String) (style : Style) (s : String) : Option Atom :=
  match tag with
  | none => if style = .plain then Atom.ofPlain? s else some (.text s)
  | some t =>
    if t = coreTag "bool" then (truth? s).map .bool
    else if t = coreTag "int" then ((integer? s.toList).bind Atom.ofInteger?).join
    else if t = coreTag "float" then (real? s.toList).map .real
    else if t = coreTag "null" then if isNullWord s then some .null else none
    else if isLocalTag tag && style = .plain then Atom.ofPlain? s
    else some (.text s)

end ContractDrift.Yaml
