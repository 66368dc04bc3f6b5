/-!
# Values of configuration files

A configuration file is a table. Tables come about in four ways, and how a table came about says
whether it may still grow: one between braces is complete, one that a header names has its entries
below that header only, and one that only the dots of a longer key or header led through is open.

* `Toml.Value` — texts, whole numbers, truth values, lists and tables.
* `Toml.assign?` — an entry under a dotted key.
* `Toml.define?` — the entries below a header.
-/

namespace ContractDrift.Toml

/-- How a table came about. -/
inductive Origin where
  /-- Written between braces. -/
  | braced
  /-- Named by a header. -/
  | headed
  /-- Led through by the dots of a key. -/
  | dotted
  /-- Led through by the dots of a header. -/
  | implied
  deriving DecidableEq, Repr

namespace Origin

/-- Whether dotted keys may lead through a table. -/
def isOpen : Origin → Bool
  | .dotted | .implied => true
  | .braced | .headed => false

end Origin

/-- A value of a configuration file. There are no fractions and no dates, which no setting takes. -/
inductive Value where
  | text (s : String)
  | whole (n : Int)
  | truth (b : Bool)
  | list (items : List Value)
  | table (origin : Origin) (entries : List (String × Value))
  deriving Inhabited

/-- Entries with another value under a key that is there. -/
def replaced (key : String) (v : Value) (entries : List (String × Value)) :
    List (String × Value) :=
  entries.map fun e => if e.1 = key then (key, v) else e

/-- Entries with a value under a dotted key that has none. The tables on the way are made, or are
open ones; the table of the value itself, unless it is the whole, is one that dotted keys made. -/
def assign? (entries : List (String × Value)) (v : Value) :
    List String → Option (List (String × Value))
  | [] => none
  | [key] => if (entries.lookup key).isSome then none else some (entries ++ [(key, v)])
  | key :: next :: rest =>
    match entries.lookup key with
    | none => (assign? [] v (next :: rest)).map fun es => entries ++ [(key, .table .dotted es)]
    | some (.table origin inner) =>
      if origin.isOpen && (origin = .dotted || rest ≠ []) then
        (assign? inner v (next :: rest)).map fun es => replaced key (.table origin es) entries
      else none
    | some _ => none

/-- Entries with values under dotted keys, one after the other. -/
def assignAll? (entries : List (String × Value)) (pairs : List (List String × Value)) :
    Option (List (String × Value)) :=
  pairs.foldlM (fun es pair => assign? es pair.2 pair.1) entries

/-- Entries with the pairs below a header in the table that the header names. A table has one
header, which may come after those of its parts. -/
def define? (entries : List (String × Value)) (pairs : List (List String × Value)) :
    List String → Option (List (String × Value))
  | [] => none
  | [key] =>
    match entries.lookup key with
    | none => (assignAll? [] pairs).map fun es => entries ++ [(key, .table .headed es)]
    | some (.table .implied inner) =>
      (assignAll? inner pairs).map fun es => replaced key (.table .headed es) entries
    | some _ => none
  | key :: next :: rest =>
    match entries.lookup key with
    | none =>
      (define? [] pairs (next :: rest)).map fun es => entries ++ [(key, .table .implied es)]
    | some (.table origin inner) =>
      if origin = .braced then none
      else
        (define? inner pairs (next :: rest)).map fun es => replaced key (.table origin es) entries
    | some _ => none

end ContractDrift.Toml
