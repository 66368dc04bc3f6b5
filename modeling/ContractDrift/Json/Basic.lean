import ContractDrift.Decimal.Layout
import ContractDrift.Ordered.Entries

/-!
# Free values

Defaults, examples and parameters of a contract are JSON values. A number is an integer or a
binary64 fraction, and the two kinds are kept apart, so that `1` and `1.0` are written as they
were read; an object is kept with its keys in ascending order.

* `Json` — a value.
* `Json.same` — equality that compares numbers as binary64 values, so that `1` equals `1.0`.
* `Json.ofReal` — a fraction as a value; what is not finite has no number and becomes `null`.
* `Json.get?` — the value under a key of an object.
* `Json.sorted` — the value with all keys in order.
-/

namespace ContractDrift

/-- A JSON value. The entries of an object that a reader built ascend in their keys. -/
inductive Json where
  | null
  | bool (value : Bool)
  | int (value : Int)
  | real (value : Binary64)
  | text (value : String)
  | list (items : List Json)
  | object (entries : List (String × Json))
  deriving Repr, Inhabited, BEq

namespace Json

/-- A fraction as a value; NaN and the infinities become `null`. -/
def ofReal (x : Binary64) : Json := if x.isFinite then .real x else .null

/-- A count as a value. -/
def ofNat (n : Nat) : Json := .int n

/-- A list of texts as a value. -/
def texts (l : List String) : Json := .list (l.map .text)

/-- An optional text as a value, `null` if absent. -/
def optionalText : Option String → Json
  | some s => .text s
  | none => .null

/-- The least integer of 64 bits with a sign. -/
def leastInteger : Int := -9223372036854775808

/-- The greatest integer of 64 bits without a sign. -/
def greatestInteger : Int := 18446744073709551615

/-- Whether a number is one that an integer slot of 64 bits holds, signed or unsigned. -/
def inIntegerRange (n : Int) : Bool := leastInteger ≤ n && n ≤ greatestInteger

/-- A number as a binary64 value. -/
def number? : Json → Option Binary64
  | .int n => some (.ofInt n)
  | .real x => some x
  | _ => none

/-- The value under a key of an object. -/
def get? (key : String) : Json → Option Json
  | .object entries => lookupEntry key entries
  | _ => none

/-- The text that a value is. -/
def text? : Json → Option String
  | .text s => some s
  | _ => none

mutual

/-- Equality up to the kind of a number: numbers are equal if their binary64 values are. -/
def same : Json → Json → Bool
  | .null, .null => true
  | .bool a, .bool b => a == b
  | .text a, .text b => a == b
  | .int a, .int b => (Binary64.ofInt a).same (.ofInt b)
  | .int a, .real y => (Binary64.ofInt a).same y
  | .real x, .int b => x.same (.ofInt b)
  | .real x, .real y => x.same y
  | .list a, .list b => sameList a b
  | .object a, .object b => sameEntries a b
  | _, _ => false

/-- Lists are equal place by place. -/
def sameList : List Json → List Json → Bool
  | [], [] => true
  | a :: as, b :: bs => same a b && sameList as bs
  | _, _ => false

/-- Objects are equal key by key; their keys stand in the same, ascending order. -/
def sameEntries : List (String × Json) → List (String × Json) → Bool
  | [], [] => true
  | (k, a) :: as, (l, b) :: bs => k == l && same a b && sameEntries as bs
  | _, _ => false

end

mutual

/-- The value with the keys of all its objects in ascending order. -/
def sorted : Json → Json
  | .list items => .list (sortedItems items)
  | .object entries => .object (Entries.ofList (sortedEntries entries)).toList
  | v => v

/-- The items of a list, the keys in each in ascending order. -/
def sortedItems : List Json → List Json
  | [] => []
  | v :: rest => v.sorted :: sortedItems rest

/-- The entries of an object, the keys in each value in ascending order. -/
def sortedEntries : List (String × Json) → List (String × Json)
  | [] => []
  | (k, v) :: rest => (k, v.sorted) :: sortedEntries rest

end

/-- Optional values are equal if both are absent or both are there and equal. -/
def sameOptional : Option Json → Option Json → Bool
  | some a, some b => same a b
  | none, none => true
  | _, _ => false

end Json

/-- Parameters by name. -/
abbrev Parameters := Entries String Json

/-- Parameters are equal if they have the same names and equal values. -/
def Parameters.same (a b : Parameters) : Bool := Json.sameEntries a.toList b.toList

end ContractDrift
