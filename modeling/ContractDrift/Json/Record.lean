import ContractDrift.Json.Basic
import ContractDrift.Text.Count

/-!
# Records as objects

The written form of a record is an object with one key for each slot. A slot may have to be there,
may be left out or `null`, or may be left out only, when it stands for a default. What is read may
also be the list of the values in the slots.

* `Json.record` — an object from its slots; slots without a value are left out.
* `Json.asRecord?` — both forms of a record as an object.
* `Json.required`, `Json.optional`, `Json.defaulted` — reading a slot of each sort.
* `Json.asWord?` — the word for one of several things.
* `Json.asText?`, `Json.asCount?`, `Json.asReal?`, … — reading the value in a slot.
-/

namespace ContractDrift.Json

/-! ## Writing -/

/-- A slot that is always written. -/
def slot (key : String) (value : Json) : List (String × Json) := [(key, value)]

/-- A slot that is written if there is a value. -/
def slotOf {α : Type} (key : String) (write : α → Json) : Option α → List (String × Json)
  | some a => [(key, write a)]
  | none => []

/-- A slot that is left out under a condition. -/
def slotUnless (key : String) (omitted : Bool) (value : Json) : List (String × Json) :=
  if omitted then [] else [(key, value)]

/-- The object with the given slots, in the order of their keys. -/
def record (slots : List (List (String × Json))) : Json :=
  .object (Entries.ofList slots.flatten).toList

/-- Parameters as an object. -/
def ofParameters (p : Parameters) : Json := .object p.toList

/-! ## Reading -/

/-- A record as an object. A list has the values of the slots in their order; it has no value too
many, and after the first `mandatory` ones, values may be missing at its end. -/
def asRecord? (slots : List String) (mandatory : Nat) : Json → Option Json
  | .object entries => some (.object entries)
  | .list values =>
    if mandatory ≤ values.length ∧ values.length ≤ slots.length then
      some (.object (slots.zip values))
    else none
  | _ => none

/-- A text. -/
def asText? : Json → Option String := text?

/-- A truth value. -/
def asBool? : Json → Option Bool
  | .bool b => some b
  | _ => none

/-- A count of 64 bits. -/
def asCount? : Json → Option Nat
  | .int n => if 0 ≤ n ∧ n.toNat ≤ Text.limit64 then some n.toNat else none
  | _ => none

/-- A number, as a binary64 value. -/
def asReal? : Json → Option Binary64 := number?

/-- A list, each item read by `read`. -/
def asList? {α : Type} (read : Json → Option α) : Json → Option (List α)
  | .list items => items.mapM read
  | _ => none

/-- A list of texts. -/
def asTexts? : Json → Option (List String) := asList? asText?

/-- A set of texts, given as a list. -/
def asMembers? (v : Json) : Option (Members String) := (asTexts? v).map Members.ofList

/-- Parameters by name. -/
def asParameters? : Json → Option Parameters
  | .object entries => some (Entries.ofList entries)
  | _ => none

/-- Any value. -/
def asAny? (v : Json) : Option Json := some v

/-- The word for one of several things: a text, or an object with the word as its only key and
nothing under it. Nothing is `null`, and for values that are held back until the sort of the whole
is known, also an object without entries. -/
def asWord? (held : Bool) : Json → Option String
  | .text word => some word
  | .object [(word, .null)] => some word
  | .object [(word, .object [])] => if held then some word else none
  | _ => none

/-- A slot that has to be there. -/
def required {α : Type} (key : String) (read : Json → Option α) (v : Json) : Option α :=
  (v.get? key).bind read

/-- A slot that may be left out or `null`. -/
def optional {α : Type} (key : String) (read : Json → Option α) (v : Json) : Option (Option α) :=
  match v.get? key with
  | none => some none
  | some .null => some none
  | some w => (read w).map some

/-- A slot that may be left out but not be `null`. -/
def defaulted {α : Type} (key : String) (default : α) (read : Json → Option α) (v : Json) :
    Option α :=
  match v.get? key with
  | none => some default
  | some w => read w

end ContractDrift.Json
