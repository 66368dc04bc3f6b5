/-!
# Binary64 numbers, exactly

Bounds, thresholds and free numbers of a contract are IEEE 754 binary64 values. They are kept here
decoded, as sign, coefficient and power of two, so that comparing, scaling and printing them is
exact integer arithmetic and a statement about a bound is a statement about a rational number.

* `Binary64` — a value; `finite s c e` stands for `(-1)^s · c · 2^e`.
* `Binary64.order` — the partial order of IEEE 754: zeros are equal, NaN is unordered.
* `Binary64.ofRatio` — the nearest value to a quotient of naturals, a tie to the even coefficient.
* `Binary64.ofInt`, `Binary64.ofDecimal`, `Binary64.mul` — what the library rounds with it.
* `Binary64.integer?` — the integer that a value is, if it is one.
-/

namespace ContractDrift

/-- An IEEE 754 binary64 value. A value that comes out of a rounding has a coefficient below
`2^53`, and of at least `2^52` unless its exponent is the least one, `-1074`. -/
inductive Binary64 where
  | nan
  | infinite (negative : Bool)
  | finite (negative : Bool) (coefficient : Nat) (exponent : Int)
  deriving DecidableEq, Repr, Inhabited

namespace Binary64

/-- The least exponent of a finite value. -/
def leastExponent : Int := -1074

/-- The greatest exponent of a finite value. -/
def greatestExponent : Int := 971

/-- A power of two. -/
def twoPow (n : Nat) : Nat := Nat.pow 2 n

/-- A power of ten. -/
def tenPow (n : Nat) : Nat := Nat.pow 10 n

/-- A coefficient with its sign. -/
def signed (negative : Bool) (coefficient : Nat) : Int :=
  if negative then -coefficient else coefficient

/-- Zero with a sign. -/
def zero (negative : Bool) : Binary64 := .finite negative 0 leastExponent

/-- Whether the value is neither infinite nor NaN. -/
def isFinite : Binary64 → Bool
  | .finite .. => true
  | _ => false

/-! ## Order -/

/-- How two values compare, by their exact values; `none` if one is NaN. -/
def order : Binary64 → Binary64 → Option Ordering
  | .nan, _ => none
  | _, .nan => none
  | .infinite true, .infinite true => some .eq
  | .infinite false, .infinite false => some .eq
  | .infinite true, _ => some .lt
  | .infinite false, _ => some .gt
  | _, .infinite true => some .gt
  | _, .infinite false => some .lt
  | .finite n c e, .finite m d f =>
    let least := min e f
    some (compare
      (signed n c * twoPow (e - least).toNat)
      (signed m d * twoPow (f - least).toNat))

/-- Whether both stand for the same number; zeros do, NaN does not even with itself. -/
def same (a b : Binary64) : Bool := order a b == some .eq

/-- Whether `a` is below `b`. -/
def below (a b : Binary64) : Bool := order a b == some .lt

/-! ## Rounding -/

/-- A quotient rounded to the nearest natural, a tie to the even one. -/
def roundHalfEven (num den : Nat) : Nat :=
  let q := num / den
  let twice := 2 * (num % den)
  if twice < den then q else if den < twice then q + 1 else q + q % 2

/-- The exponent `k` with `2^k ≤ num / den < 2^(k+1)`, for positive `num` and `den`. -/
def binaryExponent (num den : Nat) : Int :=
  let k : Int := (num.log2 : Int) - (den.log2 : Int)
  let reaches : Bool := if 0 ≤ k then den * twoPow k.toNat ≤ num else den ≤ num * twoPow (-k).toNat
  if reaches then k else k - 1

/-- The nearest value to `num / den`, infinite beyond the greatest finite value. -/
def ofRatio (negative : Bool) (num den : Nat) : Binary64 :=
  if num = 0 then zero negative
  else
    let exponent := max (binaryExponent num den - 52) leastExponent
    let coefficient :=
      if 0 ≤ exponent then roundHalfEven num (den * twoPow exponent.toNat)
      else roundHalfEven (num * twoPow (-exponent).toNat) den
    let (coefficient, exponent) :=
      if coefficient = twoPow 53 then (twoPow 52, exponent + 1) else (coefficient, exponent)
    if greatestExponent < exponent then .infinite negative
    else .finite negative coefficient exponent

/-- The nearest value to an integer. -/
def ofInt (n : Int) : Binary64 := ofRatio (n < 0) n.natAbs 1

/-- The nearest value to `digits · 10^exponent`. Outside of the range of decimal exponents that
binary64 can tell from zero and infinity the answer needs no arithmetic. -/
def ofDecimal (negative : Bool) (digits : Nat) (exponent : Int) : Binary64 :=
  let magnitude := exponent + (Nat.toDigits 10 digits).length
  if digits = 0 ∨ magnitude < -400 then zero negative
  else if 400 < magnitude then .infinite negative
  else if 0 ≤ exponent then ofRatio negative (digits * tenPow exponent.toNat) 1
  else ofRatio negative digits (tenPow (-exponent).toNat)

/-- The nearest value to a product. -/
def mul : Binary64 → Binary64 → Binary64
  | .nan, _ => .nan
  | _, .nan => .nan
  | .infinite n, .infinite m => .infinite (n != m)
  | .infinite n, .finite m d _ => if d = 0 then .nan else .infinite (n != m)
  | .finite n c _, .infinite m => if c = 0 then .nan else .infinite (n != m)
  | .finite n c e, .finite m d f =>
    let exponent := e + f
    if 0 ≤ exponent then ofRatio (n != m) (c * d * twoPow exponent.toNat) 1
    else ofRatio (n != m) (c * d) (twoPow (-exponent).toNat)

/-! ## Integers -/

/-- The integer that a finite value is. -/
def integer? : Binary64 → Option Int
  | .finite negative c e =>
    if 0 ≤ e then some (signed negative (c * twoPow e.toNat))
    else if c % twoPow (-e).toNat = 0 then some (signed negative (c / twoPow (-e).toNat))
    else none
  | _ => none

/-! ## Small laws -/

@[simp] theorem order_nan_left (b : Binary64) : order .nan b = none := rfl

@[simp] theorem order_nan_right (a : Binary64) : order a .nan = none := by
  cases a <;> rfl

theorem same_self_of_isFinite {a : Binary64} (h : a.isFinite = true) : same a a = true := by
  cases a with
  | finite n c e => simp [same, order, compare, compareOfLessAndEq]
  | nan => simp [isFinite] at h
  | infinite n => simp [isFinite] at h

end Binary64

end ContractDrift
