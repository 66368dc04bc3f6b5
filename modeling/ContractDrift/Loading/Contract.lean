import ContractDrift.Loading.Field

/-!
# Loading contracts

A contract is loaded from the text of its document, or from the location of the document. The parts
are looked at in a fixed order, and the first thing that is wrong is what is reported: first that no
names of servers or models repeat, then the servers, the models one after the other, and last the
rules about the whole.

* `Contract.ofDeclaration` — the contract that a document declares.
* `Contract.ofText`, `Contract.load` — the contract of a text, and of the document at a location.
-/

namespace ContractDrift

/-- The server of a declaration. -/
def ServerDeclaration.toServer (name : String) (s : ServerDeclaration) : Except LoadError Server :=
  match s.type with
  | none => .error (.missingType ("servers." ++ name))
  | some type =>
    .ok {
      name
      type := ServerType.parse type
      description := s.description
      parameters := s.parameters }

/-- The model of a declaration. -/
def LoadContext.model (context : LoadContext) (name : String) (m : ModelDeclaration) :
    Except LoadError Model := do
  let path := "models." ++ name
  let fields ← context.fieldList path 0 m.fields
  let quality ← context.rules (path ++ ".quality") m.quality
  .ok {
    name
    type := m.type
    title := m.title
    description := m.description
    primaryKey := m.primaryKey
    fields
    quality
    tags := m.tags }

/-- What a document says about who its contract is; what is missing is empty. -/
def ContractDeclaration.identity (c : ContractDeclaration) : Identity where
  specification := c.specification.getD Contract.defaultSpecification
  id := c.id.getD ""
  info := {
    title := c.info.title.getD ""
    version := c.info.version.getD ""
    description := c.info.description
    owner := c.info.owner
    contact := c.info.contact }

namespace Contract

/-- The contract that a document declares. -/
def ofDeclaration (settings : LoaderSettings) (fetcher : Fetcher) (base : Option String)
    (c : ContractDeclaration) : Except LoadError Contract := do
  let context : LoadContext := { settings, fetcher, base, definitions := c.definitions }
  checkUnique "servers" "server" (c.servers.map Prod.fst)
  checkUnique "models" "model" (c.models.map Prod.fst)
  let servers ← c.servers.mapM fun (name, s) => s.toServer name
  let models ← c.models.mapM fun (name, m) => context.model name m
  let quality ← context.rules "quality" c.quality
  .ok { c.identity with terms := c.terms, servers, models, quality }

/-- The contract in the text of a document. Without a location of its own, given as `base`, the
document can refer to the network only. -/
def ofText (settings : LoaderSettings) (fetcher : Fetcher) (text : String)
    (base : Option String := none) : Except LoadError Contract :=
  if (Text.trim text).isEmpty then .error .emptyDocument
  else
    match ContractDeclaration.read? text with
    | none => .error .malformed
    | some c => ofDeclaration settings fetcher base c

/-- The contract in the document at a location. -/
def load (settings : LoaderSettings) (fetcher : Fetcher) (location : String) :
    Except LoadError Contract := do
  let text ← fetcher.fetch location
  ofText settings fetcher text (some location)

end Contract

end ContractDrift
