import ContractDrift.Loading.Error
import ContractDrift.Text.Blank

/-!
# Trees of files

The files that can be read, each under the names that lead to it from the root, and the working
directory. A path is a text of names between slashes; it is followed name by name, so a path that
goes through a file leads nowhere even if it comes back.

* `FileTree` — the files; `FileTree.node?` — what is under names.
* `FileTree.resolve` — where a path leads.
* `FileTree.read` — the text of the file at a path.
-/

namespace ContractDrift

/-- What can be under a name. -/
inductive FileNode where
  | text (content : String)
  /-- A file whose bytes are no text. -/
  | bytes
  | directory
  deriving DecidableEq, Repr

/-- Files under the names that lead to them from the root. -/
structure FileTree where
  /-- The names that lead to the working directory. -/
  working : List String
  entries : List (List String × FileNode) := []

namespace FileTree

/-- Whether names lead to a directory that has to be there because of what is inside of it. -/
def isImplied (t : FileTree) (names : List String) : Bool :=
  names.isPrefixOf t.working ||
    t.entries.any fun e => names.length < e.1.length && names.isPrefixOf e.1

/-- What is under names from the root. -/
def node? (t : FileTree) (names : List String) : Option FileNode :=
  match t.entries.lookup names with
  | some node => some node
  | none => if t.isImplied names then some .directory else none

/-- The tree with something more in it. -/
def withNode (t : FileTree) (names : List String) (node : FileNode) : FileTree :=
  { t with entries := (names, node) :: t.entries }

/-- The text of an absolute path. -/
def absolute (names : List String) : String := "/" ++ String.intercalate "/" names

/-- Where steps lead from a place. Only from a directory there are steps, also to itself. -/
def walk (t : FileTree) (place : List String) : List String → Except ReadFailure (List String)
  | [] => .ok place
  | step :: rest =>
    match t.node? place with
    | none => .error (.missing place)
    | some .directory =>
      if step = "" || step = "." then t.walk place rest
      else if step = ".." then t.walk place.dropLast rest
      else
        match t.node? (place ++ [step]) with
        | none => .error (.missing (place ++ [step]))
        | some _ => t.walk (place ++ [step]) rest
    | some _ => .error .notDirectory

/-- The names in a path. -/
def steps (path : String) : List String := (Text.fields '/' path.toList).map String.ofList

/-- Whether a path begins at the root. -/
def isAbsolute (path : String) : Bool := path.toList.head? = some '/'

/-- Where a path leads from a directory. An empty path leads to the directory itself. -/
def resolveFrom (t : FileTree) (place : List String) (path : String) :
    Except ReadFailure (List String) :=
  t.walk (if isAbsolute path then [] else place) (steps path)

/-- Where a path leads. An empty path leads nowhere. -/
def resolve (t : FileTree) (path : String) : Except ReadFailure (List String) :=
  if path.isEmpty then .error (.missing []) else t.resolveFrom t.working path

/-- The text of the file under names. -/
def content (t : FileTree) (names : List String) : Except ReadFailure String :=
  match t.node? names with
  | some (.text s) => .ok s
  | some .bytes => .error .notText
  | some .directory => .error .isDirectory
  | none => .error (.missing names)

/-- The text of the file at a path. -/
def read (t : FileTree) (path : String) : Except ReadFailure String := do
  let names ← t.resolve path
  t.content names

end FileTree

end ContractDrift
