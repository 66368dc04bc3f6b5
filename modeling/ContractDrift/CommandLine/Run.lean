import ContractDrift.CommandLine.Arguments
import ContractDrift.Configuration.File
import ContractDrift.Files.Fetcher
import ContractDrift.Json.Printer
import ContractDrift.Lint.Check
import ContractDrift.Loading.Contract
import ContractDrift.Report.Text

/-!
# Running commands

A command reads the configuration, then the contracts, then says what it found. It fails if the gate
or the check does, and stops with an error if something cannot be read.

* `Surroundings` — the files and the input that a command can read.
* `CommandError` — why a command stops.
* `Command.run` — what a command finds and says.
* `Surroundings.run` — the outcome of the whole program.
-/

namespace ContractDrift

/-- What a command can read. -/
structure Surroundings where
  files : FileTree
  /-- The standard input, if it is text. -/
  input : Option String

/-- Why a command stops. -/
inductive CommandError where
  | configuration (error : ConfigurationError)
  /-- Both contracts on the standard input. -/
  | twoInputs
  /-- A standard input that is no text. -/
  | input
  | load (location : String) (error : LoadError)
  deriving DecidableEq, Repr

namespace CommandError

/-- The message shown. -/
def message : CommandError → String
  | .configuration error => error.message
  | .twoInputs => "Invalid argument: only one contract can be read from stdin"
  | .input => "Failed to read stdin: stream did not contain valid UTF-8"
  | .load location error => "Failed to load contract " ++ location ++ ": " ++ error.message

/-- The names that lead to where nothing was found. -/
def missing? : CommandError → Option (List String)
  | .configuration (.unreadable _ (.missing names)) => some names
  | .load _ (.read _ (.missing names)) => some names
  | _ => none

end CommandError

/-- What a command says, and whether the gate or the check passed. -/
structure Finished where
  passed : Bool
  output : String

/-! ## Commands -/

/-- The location that stands for the standard input. -/
def inputLocation : String := "-"

/-- The contract at a location, or on the standard input. -/
def Surroundings.contract (s : Surroundings) (settings : LoaderSettings) (location : String) :
    Except CommandError Contract :=
  if location = inputLocation then
    match s.input with
    | none => .error .input
    | some text => (Contract.ofText settings s.files.fetcher text).mapError (.load location)
  else (Contract.load settings s.files.fetcher location).mapError (.load location)

/-- Two versions of a contract, of which one may be on the standard input. -/
def Surroundings.versions (s : Surroundings) (settings : LoaderSettings) (old new : String) :
    Except CommandError (Contract × Contract) := do
  if old = inputLocation && new = inputLocation then .error .twoInputs
  else
    let o ← s.contract settings old
    let n ← s.contract settings new
    .ok (o, n)

/-- A result in a format. -/
def written (format : ReportFormat) (record : Json) (report : String) : String :=
  match format with
  | .json => record.pretty ++ "\n"
  | .text => report

/-- What a command finds and says under a configuration. -/
def Command.run (s : Surroundings) (c : Configuration) : Command → Except CommandError Finished
  | .diff old new format => do
    let (old, new) ← s.versions c.loader old new
    let found := old.compare new
    .ok { passed := true, output := written format found.toJson found.report }
  | .changelog old new format => do
    let (old, new) ← s.versions c.loader old new
    let found := old.changelog new c.changelog
    .ok { passed := true, output := written format found.toJson found.report }
  | .breaking old new format failOn => do
    let (old, new) ← s.versions c.loader old new
    let settings := { c.changelog with failOn := failOn.getD c.changelog.failOn }
    let gate := Gate.ofChangelog settings (old.changelog new settings)
    .ok { passed := gate.passed, output := written format gate.toJson gate.report }
  | .lint location format => do
    let contract ← s.contract c.loader location
    let found := contract.lint
    .ok { passed := !found.hasErrors, output := written format found.toJson (found.report location) }

/-- What an invocation finds and says. -/
def Invocation.run (i : Invocation) (s : Surroundings) : Except CommandError Finished := do
  let c ← match i.config with
    | none => .ok {}
    | some path => (Configuration.load s.files path).mapError .configuration
  i.command.run s c

/-! ## The program -/

/-- How a run of the program ends. -/
structure Outcome where
  exitCode : Nat
  output : String := ""
  /-- Why the program stopped. -/
  error : Option CommandError := none

/-- The name and the version of the program. -/
def versionLine : String := "datacontract 0.4.0\n"

/-- How the program is used. -/
def usage : String :=
  "Compare data contract versions and classify their changes\n\n" ++
    "Usage: datacontract [--config FILE] [-v] COMMAND\n\n" ++
    "Commands:\n" ++
    "  diff OLD NEW [--format text|json]\n" ++
    "  changelog OLD NEW [--format text|json]\n" ++
    "  breaking OLD NEW [--format text|json] [--fail-on SEVERITY]\n" ++
    "  lint LOCATION [--format text|json]\n"

/-- The outcome of the program: 0 if all passed, 1 if the gate or the check failed, and 2 if the
words are wrong or something could not be read. -/
def Surroundings.run (s : Surroundings) (words : List String) : Outcome :=
  match Invocation.read words with
  | .error .misuse => { exitCode := 2 }
  | .error .help => { exitCode := 0, output := usage }
  | .error .version => { exitCode := 0, output := versionLine }
  | .ok i =>
    match i.run s with
    | .ok f => { exitCode := if f.passed then 0 else 1, output := f.output }
    | .error e => { exitCode := 2, error := some e }

end ContractDrift
