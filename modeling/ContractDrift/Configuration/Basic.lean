import ContractDrift.Changelog.Settings
import ContractDrift.Loading.Settings
import ContractDrift.Toml.Document

/-!
# Configuration

A configuration file has a section about the changelog and one about loading. What is not set keeps
its default; a key that no setting has is an error, and so is a value of another sort than the
setting takes. A section may also be a list of the values of its settings in their order.

* `Configuration` — the settings of all parts.
* `Configuration.read?` — the settings in the text of a file.
-/

namespace ContractDrift

/-- The settings of all parts. -/
structure Configuration where
  changelog : ChangelogSettings := {}
  loader : LoaderSettings := {}
  deriving Inhabited

namespace Configuration

open Toml (Value)

/-- The values of settings with given names: those of a table that has no other keys, or those of a
list by their places. -/
def section? (names : List String) : Value → Option (List (String × Value))
  | .table _ entries => if entries.all fun e => names.contains e.1 then some entries else none
  | .list items => some (names.zip items)
  | _ => none

/-- A setting, or its default where nothing is set. -/
def setting? {α : Type} (entries : List (String × Value)) (key : String) (default : α)
    (read : Value → Option α) : Option α :=
  match entries.lookup key with
  | none => some default
  | some v => read v

/-- A severity. -/
def severity? : Value → Option Severity
  | .text s => (Severity.parse s).toOption
  | _ => none

/-- A switch. -/
def switch? : Value → Option Bool
  | .truth b => some b
  | _ => none

/-- A duration in seconds. -/
def seconds? : Value → Option Nat
  | .whole (.ofNat n) => some n
  | _ => none

/-- Severities by rule. -/
def overrides? : Value → Option (Entries String Severity)
  | .table _ entries => do
    let pairs ← entries.mapM fun (rule, v) => do
      let s ← severity? v
      some (rule, s)
    some (Entries.ofList pairs)
  | _ => none

/-- The section about the changelog. -/
def changelog? (v : Value) : Option ChangelogSettings := do
  let entries ← section? ["fail_on", "severity_overrides"] v
  let failOn ← setting? entries "fail_on" .breaking severity?
  let overrides ← setting? entries "severity_overrides" .empty overrides?
  some { failOn, overrides }

/-- The section about loading. -/
def loader? (v : Value) : Option LoaderSettings := do
  let entries ← section? ["inline_definitions", "inline_quality", "http_timeout_secs"] v
  let inlineDefinitions ← setting? entries "inline_definitions" true switch?
  let inlineQuality ← setting? entries "inline_quality" true switch?
  let timeoutSeconds ← setting? entries "http_timeout_secs" 10 seconds?
  some { inlineDefinitions, inlineQuality, timeoutSeconds }

/-- The settings in the text of a configuration file. -/
def read? (text : String) : Option Configuration := do
  let entries ← section? ["changelog", "loader"] (.table .implied (← Toml.read? text))
  let changelog ← setting? entries "changelog" {} changelog?
  let loader ← setting? entries "loader" {} loader?
  some { changelog, loader }

end Configuration

end ContractDrift
