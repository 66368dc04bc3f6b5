import ContractDrift.Text.Count

/-!
# Data types of scalar fields

The closed set of scalar types, their written form, and the question that a schema change asks:
does every value of the old type stay a value of the new one?

* `DataType` — the types. Containers with fields of their own are not scalar; an array of scalars
  is, with or without a declared element type.
* `DataType.text`, `DataType.parse?` — the canonical text and the reader of all spellings.
* `DataType.compatibility` — identical, widened or incompatible.
-/

namespace ContractDrift

/-- The type of a scalar field. A decimal without precision is unbounded. -/
inductive DataType where
  | string
  | varchar
  | int
  | long
  | float
  | double
  | decimal (precision scale : Option Nat)
  | number
  | boolean
  | date
  | time
  | timestamp
  | timestampTz
  | timestampNtz
  | bytes
  | null
  | map
  /-- An array whose element type is not declared. -/
  | array
  | arrayOf (element : DataType)
  deriving DecidableEq, Repr, Inhabited

/-- What a change of type means for the values that are there. -/
inductive Compatibility where
  | identical
  /-- Every old value is a value of the new type. -/
  | widened
  /-- Values may be lost or fail to convert. -/
  | incompatible
  deriving DecidableEq, Repr

namespace Compatibility

/-- The name shown. -/
def name : Compatibility → String
  | .identical => "identical"
  | .widened => "widened"
  | .incompatible => "incompatible"

end Compatibility

namespace DataType

/-- Whether the values are numbers. -/
def isNumeric : DataType → Bool
  | .int | .long | .float | .double | .decimal .. | .number => true
  | _ => false

/-- Whether the values are texts. -/
def isTextual : DataType → Bool
  | .string | .varchar => true
  | _ => false

/-! ## Text -/

/-- The canonical text of a type. -/
def chars : DataType → List Char
  | .string => "string".toList
  | .varchar => "varchar".toList
  | .int => "int".toList
  | .long => "long".toList
  | .float => "float".toList
  | .double => "double".toList
  | .decimal (some p) (some s) =>
    "decimal(".toList ++ Nat.toDigits 10 p ++ ',' :: Nat.toDigits 10 s ++ [')']
  | .decimal (some p) none => "decimal(".toList ++ Nat.toDigits 10 p ++ [')']
  | .decimal none _ => "decimal".toList
  | .number => "number".toList
  | .boolean => "boolean".toList
  | .date => "date".toList
  | .time => "time".toList
  | .timestamp => "timestamp".toList
  | .timestampTz => "timestamp_tz".toList
  | .timestampNtz => "timestamp_ntz".toList
  | .bytes => "bytes".toList
  | .null => "null".toList
  | .map => "map".toList
  | .array => "array".toList
  | .arrayOf element => "array<".toList ++ element.chars ++ ['>']

/-- The canonical text of a type. -/
def text (t : DataType) : String := String.ofList t.chars

/-- The type that a single word names. -/
def named? (word : String) : Option DataType :=
  match word with
  | "string" => some .string
  | "text" => some .string
  | "varchar" => some .varchar
  | "int" => some .int
  | "integer" => some .int
  | "long" => some .long
  | "bigint" => some .long
  | "float" => some .float
  | "double" => some .double
  | "decimal" => some (.decimal none none)
  | "numeric" => some (.decimal none none)
  | "number" => some .number
  | "boolean" => some .boolean
  | "bool" => some .boolean
  | "date" => some .date
  | "time" => some .time
  | "timestamp" => some .timestamp
  | "timestamp_tz" => some .timestampTz
  | "timestamp_ntz" => some .timestampNtz
  | "bytes" => some .bytes
  | "null" => some .null
  | "map" => some .map
  | "array" => some .array
  | _ => none

/-- The decimal type with the arguments of a text: a precision, or a precision and a scale. -/
def decimal? (arguments : List Char) : Option DataType :=
  match (Text.fields ',' arguments).map fun a => Text.count? Text.limit32 (Text.trimChars a) with
  | [some p] => some (.decimal (some p) none)
  | [some p, some s] => some (.decimal (some p) (some s))
  | _ => none

/-- The arguments of a text that spells a decimal type with arguments. -/
def decimalArguments? (cs : List Char) : Option (List Char) :=
  match Text.dropLead? "decimal(".toList cs with
  | some rest => Text.dropLast? ')' rest
  | none => Text.between? "numeric(".toList ')' cs

/-- The type that a text spells, in any letter case and with blanks around it. -/
def parseChars? (cs : List Char) : Option DataType :=
  let word := (Text.trimChars cs).map Text.lowerChar
  match _enclosed : Text.between? "array<".toList '>' word with
  | some element => (parseChars? element).map .arrayOf
  | none =>
    match decimalArguments? word with
    | some arguments => decimal? arguments
    | none => named? (String.ofList word)
termination_by cs.length
decreasing_by
  have hw : word.length ≤ cs.length := by
    simp only [word, List.length_map]
    exact Text.length_trimChars_le cs
  rw [Text.between?_eq_some_iff.1 _enclosed] at hw
  simp only [List.length_append, List.length_cons, List.length_nil] at hw
  omega

/-- The type that a text spells. -/
def parse? (s : String) : Option DataType := parseChars? s.toList

/-- The message about a text that spells no type. -/
def unknownMessage (s : String) : String := "unknown data type '" ++ s ++ "'"

/-! ## Change of type -/

/-- The digits that hold every 32-bit integer. -/
def intDigits : Nat := 10

/-- The digits that hold every 64-bit integer. -/
def longDigits : Nat := 19

/-- Whether a decimal has room for integers of so many digits. -/
def holdsInteger (precision scale : Option Nat) (digits : Nat) : Bool :=
  match precision with
  | none => true
  | some p => digits ≤ p - scale.getD 0

/-- Whether a decimal keeps the scale and the integer digits of another one. -/
def decimalWidens (oldPrecision oldScale newPrecision newScale : Option Nat) : Bool :=
  let oldScale := oldScale.getD 0
  let newScale := newScale.getD 0
  oldScale ≤ newScale &&
    match oldPrecision, newPrecision with
    | _, none => true
    | none, some _ => false
    | some p, some q => p - oldScale ≤ q - newScale

/-- Whether every value of `old` is one of a different type `new`, arrays of elements apart. -/
def widens (old new : DataType) : Bool :=
  match old, new with
  | .null, _ => true
  | .varchar, .string => true
  | .int, .long | .int, .double | .int, .number => true
  | .int, .decimal p s => holdsInteger p s intDigits
  | .long, .number => true
  | .long, .decimal p s => holdsInteger p s longDigits
  | .float, .double | .float, .number => true
  | .double, .number => true
  | .decimal .., .number => true
  | .decimal p s, .decimal q t => decimalWidens p s q t
  | .date, .timestamp | .date, .timestampNtz => true
  | .arrayOf _, .array => true
  | _, _ => false

/-- What the change from `old` to `new` means for the values that are there. Arrays with declared
elements go by their elements. -/
def compatibility : DataType → DataType → Compatibility
  | .arrayOf old, .arrayOf new => compatibility old new
  | old, new =>
    if old = new then .identical else if widens old new then .widened else .incompatible

theorem compatibility_self : ∀ t : DataType, t.compatibility t = .identical
  | .arrayOf t => by rw [compatibility, compatibility_self t]
  | .string | .varchar | .int | .long | .float | .double | .number | .boolean | .date | .time
  | .timestamp | .timestampTz | .timestampNtz | .bytes | .null | .map | .array => by decide
  | .decimal p s => by simp [compatibility]

end DataType

end ContractDrift
