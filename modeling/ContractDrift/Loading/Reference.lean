import ContractDrift.Declaration.Reader
import ContractDrift.Loading.Fetcher
import ContractDrift.Loading.Settings

/-!
# References

A field may refer to a definition, in its own document or in another one, and a quality rule to a
document with its specification.

* `LoadContext` — what is known while a document is loaded.
* `LoadContext.definition` — the definition that a field refers to.
* `LoadContext.specification` — the value of a document that a rule refers to.
-/

namespace ContractDrift

/-- What is known while a document is loaded. -/
structure LoadContext where
  settings : LoaderSettings
  fetcher : Fetcher
  /-- The location of the document, if it has one. -/
  base : Option String
  /-- The definitions of the document; of a name that repeats the last one counts. -/
  definitions : List (String × FieldDeclaration)

/-- A reference to a definition. -/
inductive Reference where
  /-- A definition of the document itself. -/
  | own (name : String)
  /-- A part of the document itself where no definitions are. -/
  | dangling
  /-- A document at a location, and the names that lead to a definition in it. -/
  | external (location : String) (steps : List String)
  deriving DecidableEq, Repr

namespace Reference

/-- The parts of a text before and after the first of a character. -/
def splitAtFirst (mark : Char) (cs : List Char) : List Char × Option (List Char) :=
  let lead := cs.takeWhile (· ≠ mark)
  match cs.drop lead.length with
  | [] => (lead, none)
  | _ :: rest => (lead, some rest)

/-- What a text refers to. -/
def ofText (text : String) : Reference :=
  match Text.dropLead? "#/definitions/".toList text.toList with
  | some name => .own (String.ofList name)
  | none =>
    match splitAtFirst '#' text.toList with
    | ([], some _) => .dangling
    | (location, fragment) =>
      let steps := (fragment.map (Text.fields '/')).getD []
      .external (String.ofList location) ((steps.filter (· ≠ [])).map String.ofList)

end Reference

/-- The part of a document that names lead to. -/
def Yaml.Tree.follow? (steps : List String) (t : Yaml.Tree) : Option Yaml.Tree :=
  steps.foldlM (fun t key => t.get? key) t

namespace LoadContext

/-- The tree of a document that holds definitions: plain data, null if there is no document. -/
def dataTree? (text : String) : Option Yaml.Tree :=
  match Yaml.Document.read? text with
  | none => none
  | some .empty => some (.scalar none .plain "")
  | some (.root t) => if t.isData then some t else none

/-- The definition that a field at a path refers to. -/
def definition (context : LoadContext) (path reference : String) :
    Except LoadError FieldDeclaration :=
  match Reference.ofText reference with
  | .own name =>
    match context.definitions.reverse.lookup name with
    | some d => .ok d
    | none => .error (.unresolvedReference path reference)
  | .dangling => .error (.unresolvedReference path reference)
  | .external location steps => do
    let text ← context.fetcher.fetchReference location context.base
    match dataTree? text with
    | none => .error .malformed
    | some t =>
      match t.follow? steps with
      | none => .error (.unresolvedReference path reference)
      | some target =>
        match FieldDeclaration.read? .typed target with
        | none => .error .malformed
        | some d => .ok d

/-- The value of a document that a rule refers to; a text that is no document is a value itself. -/
def specification (context : LoadContext) (reference : String) : Except LoadError Json := do
  let text ← context.fetcher.fetchReference reference context.base
  match Yaml.Document.read? text with
  | none => .ok (.text text)
  | some .empty => .ok .null
  | some (.root t) => .ok ((t.json? .written).getD (.text text))

end LoadContext

end ContractDrift
