import ContractDrift.Decimal.Binary64

/-!
# The shortest decimal that reads back

A binary64 value is printed with the fewest significant digits that are nearer to it than to any
other value. Between two such decimals of the same length the nearer one is taken.

The search works on the exact value `num / den`. On the grid of decimals with `n` significant
digits only the two neighbours of the value can be nearest, so `shortest` looks at these for
`n = 1, 2, …, 17`; with 17 digits one of them always reads back.
-/

namespace ContractDrift.Binary64

/-- A positive decimal: `digits · 10^exponent`, the last digit not zero. -/
structure Decimal where
  digits : Nat
  exponent : Int
  deriving DecidableEq, Repr

/-- The quotient `num / den` with a power of ten taken out, as naturals. -/
def overPowerOfTen (num den : Nat) (exponent : Int) : Nat × Nat :=
  if 0 ≤ exponent then (num, den * tenPow exponent.toNat)
  else (num * tenPow (-exponent).toNat, den)

/-- The exponent `k` with `10^(k-1) ≤ num / den < 10^k`, sought upwards from `k` in `fuel` steps. -/
def decimalMagnitude (num den : Nat) : Nat → Int → Int
  | 0, k => k
  | fuel + 1, k =>
    let (n, d) := overPowerOfTen num den k
    if n < d then k else decimalMagnitude num den fuel (k + 1)

/-- The decimal without its trailing zeros. -/
def stripZeros : Nat → Decimal → Decimal
  | 0, x => x
  | fuel + 1, x =>
    if x.digits ≠ 0 ∧ x.digits % 10 = 0 then
      stripZeros fuel { digits := x.digits / 10, exponent := x.exponent + 1 }
    else x

/-- The reals that round to `c · 2^e`, times `4`, in units of `2^e`: the neighbour below is half as
far away when `c` is the least coefficient of its exponent. -/
def roundingInterval (c : Nat) (e : Int) : Nat × Nat :=
  if c = twoPow 52 ∧ leastExponent < e then (4 * c - 1, 4 * c + 2) else (4 * c - 2, 4 * c + 2)

/-- Whether `m · 10^k` rounds to `c · 2^e`. The ends of the interval do when `c` is even. -/
def readsBack (c : Nat) (e : Int) (m : Nat) (k : Int) : Bool :=
  let (low, high) := roundingInterval c e
  -- both sides of `low · 2^e ≤ 4 · m · 10^k ≤ high · 2^e`, cleared of negative exponents
  let two := fun (x : Int) => if 0 ≤ x then twoPow x.toNat else 1
  let ten := fun (x : Int) => if 0 ≤ x then tenPow x.toNat else 1
  let unit := two e * ten (-k)
  let point := 4 * m * ten k * two (-e)
  if c % 2 = 0 then low * unit ≤ point && point ≤ high * unit
  else low * unit < point && point < high * unit

/-- The decimal of `n` significant digits next to `num / den` that reads back, if there is one;
`magnitude` places the first digit. -/
def nearest? (c : Nat) (e : Int) (num den : Nat) (magnitude : Int) (n : Nat) : Option Decimal :=
  let k := magnitude - n
  let (num, den) := overPowerOfTen num den k
  let lower := num / den
  let remainder := 2 * (num % den)
  match readsBack c e lower k, readsBack c e (lower + 1) k with
  | true, true =>
    if remainder < den ∨ (remainder = den ∧ lower % 2 = 0) then some ⟨lower, k⟩
    else some ⟨lower + 1, k⟩
  | true, false => some ⟨lower, k⟩
  | false, true => some ⟨lower + 1, k⟩
  | false, false => none

/-- The shortest decimal that reads back as `c · 2^e`, for a positive coefficient. -/
def shortest (c : Nat) (e : Int) : Decimal :=
  let (num, den) := if 0 ≤ e then (c * twoPow e.toNat, 1) else (c, twoPow (-e).toNat)
  let start : Int := (binaryExponent num den) * 30103 / 100000 - 1
  let magnitude := decimalMagnitude num den 5 start
  match (List.range 17).findSome? fun i => nearest? c e num den magnitude (i + 1) with
  | some x => stripZeros 20 x
  | none => stripZeros 400 ⟨num / den, 0⟩

end ContractDrift.Binary64
