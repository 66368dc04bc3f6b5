import ContractDrift.Files.Tree
import ContractDrift.Loading.Fetcher

/-!
# Fetching from files

Documents that are files. A document refers to others by paths from its own directory, and may not
refer to anything outside of that directory. Nothing is fetched from the network.

* `FileTree.referenced` — the text that a document refers to.
* `FileTree.fetcher` — the fetcher of the documents in a tree.
-/

namespace ContractDrift.FileTree

/-- The path of the directory that a path is in. -/
def parent (path : String) : String :=
  match (steps path).dropLast with
  | [] => "."
  | [""] => "/"
  | names => String.intercalate "/" names

/-- A reference without a leading step to the directory itself. -/
def bare (reference : String) : String :=
  match Text.dropLead? ['.', '/'] reference.toList with
  | some rest => String.ofList rest
  | none => reference

/-- The text that the document at a path refers to. What cannot be found is named as in the
reference, and what is found but cannot be read is named by its absolute path. -/
def referenced (t : FileTree) (reference document : String) : Except LoadError String := do
  let orRead {α : Type} (location : String) (r : Except ReadFailure α) : Except LoadError α :=
    r.mapError (.read location)
  let directory ← orRead reference (t.resolve (parent document))
  let names ← orRead reference (t.resolveFrom directory (bare reference))
  if directory.isPrefixOf names then orRead (absolute names) (t.content names)
  else .error (.read reference (.outside (absolute directory)))

/-- The fetcher of the documents in a tree. -/
def fetcher (t : FileTree) : Fetcher where
  fetch location :=
    if isRemote location then .error (.remoteUnsupported location)
    else (t.read location).mapError (.read location)
  fetchReference reference base :=
    if isRemote reference then .error (.remoteUnsupported reference)
    else
      match base with
      | none => .error (.unanchoredReference reference)
      | some document =>
        if isRemote document then
          .error (.fetch reference ("relative reference inside remote document " ++ document))
        else t.referenced reference document

end ContractDrift.FileTree
