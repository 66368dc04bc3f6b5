import ContractDrift.Changelog.Severity
import ContractDrift.Ordered.Entries

/-!
# Settings of the changelog

Which severity closes the gate, and which rules have another severity than the table gives them.
-/

namespace ContractDrift

/-- How changes are graded and gated. -/
structure ChangelogSettings where
  /-- The least severity that fails the gate. -/
  failOn : Severity := .breaking
  /-- Severities that replace those of the table, by rule. -/
  overrides : Entries String Severity := .empty
  deriving Inhabited

namespace ChangelogSettings

/-- The severity that replaces the one of a rule. -/
def override? (s : ChangelogSettings) (rule : String) : Option Severity := s.overrides.get? rule

/-- The settings with one more replaced severity. -/
def withOverride (s : ChangelogSettings) (rule : String) (severity : Severity) :
    ChangelogSettings :=
  { s with overrides := s.overrides.insert rule severity }

end ChangelogSettings

end ContractDrift
