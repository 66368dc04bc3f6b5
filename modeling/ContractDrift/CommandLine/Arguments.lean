import ContractDrift.Changelog.Severity

/-!
# Arguments of the command line

The words after the name of the program are options and operands. Words are first told apart, which
does not depend on the command, and are then taken one after the other, so the first word that is
wrong, or that asks for help, decides.

* `Argument`, `arguments` — options and operands.
* `Command`, `Invocation` — what the program is asked to do.
* `Invocation.read` — the invocation that words make up, or why there is none.
-/

namespace ContractDrift

/-- How results are written. -/
inductive ReportFormat where
  | text
  | json
  deriving DecidableEq, Repr, Inhabited

/-- What the program can do. A location is a path, or a hyphen for the standard input. -/
inductive Command where
  | diff (old new : String) (format : ReportFormat)
  | changelog (old new : String) (format : ReportFormat)
  /-- The gate; a severity given here replaces the configured one. -/
  | breaking (old new : String) (format : ReportFormat) (failOn : Option Severity)
  | lint (location : String) (format : ReportFormat)
  deriving DecidableEq, Repr

/-- What the program is asked to do. -/
structure Invocation where
  /-- The path of the configuration file. -/
  config : Option String
  verbose : Bool
  command : Command
  deriving DecidableEq, Repr

/-- Why words are no invocation. -/
inductive Stop where
  /-- They are wrong. -/
  | misuse
  /-- They ask how the program is used. -/
  | help
  /-- They ask for the version of the program. -/
  | version
  deriving DecidableEq, Repr

/-! ## Telling words apart -/

/-- The options. -/
inductive OptionName where
  | config
  | format
  | failOn
  | verbose
  | help
  | version
  deriving DecidableEq, Repr

namespace OptionName

/-- The option with a long name. -/
def ofLong? : String → Option OptionName
  | "config" => some .config
  | "format" => some .format
  | "fail-on" => some .failOn
  | "verbose" => some .verbose
  | "help" => some .help
  | "version" => some .version
  | _ => none

/-- The option with a letter. -/
def ofShort? : Char → Option OptionName
  | 'v' => some .verbose
  | 'h' => some .help
  | 'V' => some .version
  | _ => none

/-- Whether an option has a value. -/
def takesValue : OptionName → Bool
  | .config | .format | .failOn => true
  | .verbose | .help | .version => false

end OptionName

/-- What a word, or an option with its value, is. -/
inductive Argument where
  | operand (s : String)
  /-- A word after the end of the options. -/
  | literal (s : String)
  | flag (name : OptionName)
  | setting (name : OptionName) (value : String)
  /-- An option that there is not, or that lacks its value or has one too many. -/
  | wrong
  deriving DecidableEq, Repr

/-- The name and the value in the text of a long option. -/
def longOption (cs : List Char) : String × Option String :=
  let name := cs.takeWhile (· ≠ '=')
  match cs.drop name.length with
  | [] => (String.ofList name, none)
  | _ :: value => (String.ofList name, some (String.ofList value))

/-- Whether a word can be the value of the option before it. -/
def isValueWord (s : String) : Bool :=
  match s.toList with
  | '-' :: _ :: _ => false
  | _ => true

/-- What the letters after a hyphen are. -/
def shortOptions (letters : List Char) : List Argument :=
  letters.map fun c =>
    match OptionName.ofShort? c with
    | some name => .flag name
    | none => .wrong

/-- What a long option with or without a value is. -/
def longArgument (name : OptionName) : Option String → Argument
  | some value => if name.takesValue then .setting name value else .wrong
  | none => if name.takesValue then .wrong else .flag name

/-- The options and operands that words are. An option without its value takes the next word. -/
def arguments : List String → List Argument
  | [] => []
  | word :: rest =>
    match word.toList with
    | ['-', '-'] => rest.map .literal
    | '-' :: '-' :: cs =>
      let (name, value) := longOption cs
      match OptionName.ofLong? name with
      | none => [.wrong]
      | some name =>
        if name.takesValue && value.isNone then
          match rest with
          | next :: rest =>
            if isValueWord next then .setting name next :: arguments rest else [.wrong]
          | [] => [.wrong]
        else longArgument name value :: arguments rest
    | '-' :: c :: cs => shortOptions (c :: cs) ++ arguments rest
    | _ => .operand word :: arguments rest

/-! ## Taking arguments -/

/-- What has been said so far at one level: before the name of a command, or after it. -/
structure Given where
  config : Option String := none
  verbose : Bool := false
  format : Option ReportFormat := none
  failOn : Option Severity := none
  operands : List String := []

namespace Given

/-- With the value of an option, which must be one that the option can have, and the first. -/
def set? (g : Given) (value : String) : OptionName → Option Given
  | .config =>
    if g.config.isSome || value.isEmpty then none else some { g with config := some value }
  | .format =>
    if g.format.isSome then none
    else
      match value with
      | "text" => some { g with format := some .text }
      | "json" => some { g with format := some .json }
      | _ => none
  | .failOn =>
    if g.failOn.isSome then none
    else
      match Severity.parse value with
      | .ok s => some { g with failOn := some s }
      | .error _ => none
  | .verbose | .help | .version => none

/-- With one more option, of those that are known at this level. -/
def takeOption (g : Given) (known : List OptionName) : Argument → Except Stop Given
  | .setting name value =>
    if known.contains name then
      match g.set? value name with
      | some g => .ok g
      | none => .error .misuse
    else .error .misuse
  | .flag name =>
    if known.contains name then
      match name with
      | .help => .error .help
      | .version => .error .version
      | _ => if g.verbose then .error .misuse else .ok { g with verbose := true }
    else .error .misuse
  | _ => .error .misuse

/-- With one more operand, of at most so many. -/
def takeOperand (g : Given) (limit : Nat) (s : String) : Except Stop Given :=
  if g.operands.length < limit then .ok { g with operands := g.operands ++ [s] }
  else .error .misuse

/-- With the arguments after the name of a command. -/
def takeAll (g : Given) (known : List OptionName) (limit : Nat) : List Argument → Except Stop Given
  | [] => .ok g
  | .operand s :: rest => do (← g.takeOperand limit s).takeAll known limit rest
  | .literal s :: rest => do (← g.takeOperand limit s).takeAll known limit rest
  | a :: rest => do (← g.takeOption known a).takeAll known limit rest

end Given

/-! ## Commands -/

/-- The options known everywhere. -/
def commonOptions : List OptionName := [.config, .verbose, .help]

/-- The names of the commands. -/
def commandNames : List String := ["diff", "changelog", "breaking", "lint"]

/-- The commands that have two versions of a contract as their operands. -/
def comparison (g : Given) (make : String → String → ReportFormat → Command) :
    Except Stop Command :=
  match g.operands with
  | [old, new] => .ok (make old new (g.format.getD .text))
  | _ => .error .misuse

/-- What the arguments after the name of a command say, and the command they make up. -/
def Command.read (name : String) (args : List Argument) : Except Stop (Given × Command) := do
  let take (more : List OptionName) (limit : Nat) : Except Stop Given :=
    Given.takeAll {} (more ++ commonOptions) limit args
  match name with
  | "diff" => do
    let g ← take [.format] 2
    .ok (g, ← comparison g .diff)
  | "changelog" => do
    let g ← take [.format] 2
    .ok (g, ← comparison g .changelog)
  | "breaking" => do
    let g ← take [.format, .failOn] 2
    .ok (g, ← comparison g fun old new format => .breaking old new format g.failOn)
  | "lint" => do
    let g ← take [.format] 1
    match g.operands with
    | [location] => .ok (g, .lint location (g.format.getD .text))
    | _ => .error .misuse
  | _ => .error .misuse

/-- Why words after `help` are no invocation: they name a command, or they are wrong. -/
def helpStop : List Argument → Stop
  | [] => .help
  | [.operand name] => if ("help" :: commandNames).contains name then .help else .misuse
  | _ => .misuse

namespace Invocation

/-- The invocation of the arguments after those before the name of the command. -/
def ofArguments (g : Given) : List Argument → Except Stop Invocation
  | [] => .error .misuse
  | .operand "help" :: rest => .error (helpStop rest)
  | .operand name :: rest => do
    let (inner, command) ← Command.read name rest
    .ok { config := inner.config.or g.config, verbose := inner.verbose || g.verbose, command }
  | a :: rest => do ofArguments (← g.takeOption (.version :: commonOptions) a) rest

/-- The invocation that words make up. A configuration file named after the command replaces the one
named before it. -/
def read (words : List String) : Except Stop Invocation := ofArguments {} (arguments words)

end Invocation

end ContractDrift
