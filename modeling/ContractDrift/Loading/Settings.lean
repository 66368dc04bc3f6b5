/-!
# Settings of the loader

What is taken over from other documents while a contract is loaded.
-/

namespace ContractDrift

/-- How contracts are loaded. -/
structure LoaderSettings where
  /-- Whether fields get what the definitions they refer to have. -/
  inlineDefinitions : Bool := true
  /-- Whether rules get the content of the specifications they refer to. -/
  inlineQuality : Bool := true
  /-- How long to wait for the network, in seconds. -/
  timeoutSeconds : Nat := 10
  deriving DecidableEq, Repr, Inhabited

end ContractDrift
