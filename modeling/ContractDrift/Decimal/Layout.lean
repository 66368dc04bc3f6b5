import ContractDrift.Decimal.Shortest

/-!
# Decimal numerals

How the digits of a number are laid out as text, and how such a text is read.

* `NumberLayout` — the choices: where positional notation ends, and whether a whole number shows a
  fraction.
* `NumberLayout.render` — the numeral of a value.
* `Numeral.read?` — sign, digits, fraction and exponent of a numeral.
* `Numeral.value` — the value nearest to it.
-/

namespace ContractDrift

/-- The choices of a numeral format. A number with `d` digits before its decimal point (counting
zeros after the point as negative) is written positionally if `least < d ≤ greatest`, and
otherwise with an exponent. -/
structure NumberLayout where
  /-- The bounds of positional notation, if it has any. -/
  positional : Option (Int × Int)
  /-- Whether a whole number ends in `.0`. -/
  wholeFraction : Bool
  /-- The text of NaN. -/
  nan : String
  /-- The text of an infinity, given whether it is negative. -/
  infinite : Bool → String

namespace NumberLayout

/-- Numbers as JSON has them: with a point or an exponent, so that they read back as fractions.
NaN and the infinities have no JSON number. -/
def json : NumberLayout :=
  { positional := some (-5, 16), wholeFraction := true, nan := "null", infinite := fun _ => "null" }

/-- Numbers inside sentences: digits and a point only. -/
def plain : NumberLayout :=
  { positional := none, wholeFraction := false, nan := "NaN",
    infinite := fun negative => if negative then "-inf" else "inf" }

/-- A count in decimal digits. -/
def digits (n : Nat) : List Char := Nat.toDigits 10 n

/-- The digits `ds` with a decimal point after the first `d` of them; `d` may lie outside. -/
def withPoint (layout : NumberLayout) (ds : List Char) (d : Int) : List Char :=
  let len : Int := ds.length
  if len ≤ d then
    ds ++ List.replicate (d - len).toNat '0' ++ (if layout.wholeFraction then ['.', '0'] else [])
  else if 0 < d then ds.take d.toNat ++ '.' :: ds.drop d.toNat
  else '0' :: '.' :: List.replicate (-d).toNat '0' ++ ds

/-- The digits `ds` with a point after the first one and the exponent `x`, its sign written out. -/
def withExponent (ds : List Char) (x : Int) : List Char :=
  let mantissa := match ds with
    | [] => []
    | [c] => [c]
    | c :: rest => c :: '.' :: rest
  mantissa ++ 'e' :: (if x < 0 then '-' else '+') :: digits x.natAbs

/-- The numeral of a positive decimal. -/
def renderDecimal (layout : NumberLayout) (x : Binary64.Decimal) : List Char :=
  let ds := digits x.digits
  let d : Int := ds.length + x.exponent
  match layout.positional with
  | none => layout.withPoint ds d
  | some (least, greatest) =>
    if least < d ∧ d ≤ greatest then layout.withPoint ds d else withExponent ds (d - 1)

/-- The numeral of a value. -/
def render (layout : NumberLayout) : Binary64 → String
  | .nan => layout.nan
  | .infinite negative => layout.infinite negative
  | .finite negative c e =>
    let body := if c = 0 then layout.withPoint ['0'] 1 else layout.renderDecimal (Binary64.shortest c e)
    String.ofList (if negative then '-' :: body else body)

end NumberLayout

/-- A decimal numeral: a sign, the digits before and after the point, and an exponent. -/
structure Numeral where
  negative : Bool
  whole : List Char
  fraction : List Char
  exponent : Int
  /-- Whether the numeral has a point or an exponent. -/
  isFraction : Bool
  deriving DecidableEq, Repr

namespace Numeral

/-- The natural that a list of decimal digits writes. -/
def natural (ds : List Char) : Nat := ds.foldl (fun n c => 10 * n + (c.toNat - '0'.toNat)) 0

/-- A sign and the text after it. -/
def sign : List Char → Bool × List Char
  | '-' :: rest => (true, rest)
  | '+' :: rest => (false, rest)
  | cs => (false, cs)

/-- The exponent part of a numeral: nothing, or `e` and a signed count. -/
def exponent? : List Char → Option (Option Int)
  | [] => some none
  | c :: rest =>
    if c = 'e' ∨ c = 'E' then
      let (negative, ds) := sign rest
      if ds ≠ [] ∧ ds.all Char.isDigit then
        some (some (Binary64.signed negative (natural ds)))
      else none
    else none

/-- Read a numeral: an optional sign, digits with at most one point among them, at least one digit,
and an optional exponent. -/
def read? (cs : List Char) : Option Numeral :=
  let (negative, rest) := sign cs
  let whole := rest.takeWhile Char.isDigit
  let rest := rest.dropWhile Char.isDigit
  let (fraction, pointed, rest) := match rest with
    | '.' :: rest => (rest.takeWhile Char.isDigit, true, rest.dropWhile Char.isDigit)
    | _ => ([], false, rest)
  if whole = [] ∧ fraction = [] then none
  else
    (exponent? rest).map fun x =>
      { negative, whole, fraction, exponent := x.getD 0, isFraction := pointed || x.isSome }

/-- The value nearest to a numeral. -/
def value (n : Numeral) : Binary64 :=
  Binary64.ofDecimal n.negative (natural (n.whole ++ n.fraction)) (n.exponent - n.fraction.length)

end Numeral

end ContractDrift
