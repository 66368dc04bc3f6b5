import ContractDrift.Loading.Error
import ContractDrift.Text.Blank

/-!
# Fetchers

Where the texts of documents come from. A fetcher knows how to get a document by its location, and
how to get one that another document refers to.

* `Fetcher` — both ways; `Fetcher.byLocation` takes references for locations.
* `Fetcher.ofDocuments` — a fetcher of given documents.
-/

namespace ContractDrift

/-- Whether a location is on the network. -/
def isRemote (location : String) : Bool :=
  (Text.dropLead? "http://".toList location.toList).isSome ||
    (Text.dropLead? "https://".toList location.toList).isSome

/-- How the texts of documents are fetched. -/
structure Fetcher where
  /-- The document at a location. -/
  fetch : String → Except LoadError String
  /-- The document that one refers to; `base` is the location of the document with the
  reference. -/
  fetchReference : (reference : String) → (base : Option String) → Except LoadError String

namespace Fetcher

/-- A fetcher that takes a reference for a location. A document without a location can refer to the
network only. -/
def byLocation (fetch : String → Except LoadError String) : Fetcher where
  fetch := fetch
  fetchReference reference base :=
    if isRemote reference || base.isSome then fetch reference
    else .error (.unanchoredReference reference)

/-- The documents of a list by their locations. -/
def ofDocuments (documents : List (String × String)) : Fetcher :=
  byLocation fun location =>
    match documents.lookup location with
    | some text => .ok text
    | none => .error (.fetch location "not found")

end Fetcher

end ContractDrift
