import ContractDrift.Configuration.Basic
import ContractDrift.Files.Tree

/-!
# Configuration files

The settings in a file, or why there are none.

* `Configuration.load` — the settings in the file at a path.
-/

namespace ContractDrift

/-- Why there are no settings. -/
inductive ConfigurationError where
  | unreadable (path : String) (failure : ReadFailure)
  /-- A text that is no configuration, or sets something that cannot be set. -/
  | invalid
  deriving DecidableEq, Repr

namespace ConfigurationError

/-- The message shown. -/
def message : ConfigurationError → String
  | .unreadable path failure =>
    "Failed to read config file " ++ path ++ ": " ++ failure.message
  | .invalid => "Invalid configuration"

end ConfigurationError

/-- The settings in the file at a path. -/
def Configuration.load (files : FileTree) (path : String) :
    Except ConfigurationError Configuration :=
  match files.read path with
  | .error failure => .error (.unreadable path failure)
  | .ok text =>
    match Configuration.read? text with
    | none => .error .invalid
    | some c => .ok c

end ContractDrift
