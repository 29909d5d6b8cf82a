import FocusLint.CommandLine.Arguments
import FocusLint.Report.Json
import FocusLint.Report.Text

/-!
Invocations of the command: from arguments and a store to an exit code, the output and the store after
it.

The exit code is 0 if every file passes and 1 if not. It is 2 if the arguments are wrong or the options
cannot be settled, and then nothing is written and no file is touched. Names given as arguments replace
those of the option file, list by list; an option file that is refused is refused whatever the
arguments are.

A store always has a directory that relative paths start from. Where a system has none any more, the command
ends with code 2 unless it is given a root, which is left out here.
-/

namespace FocusLint.CommandLine

open Syntax (Reader)

/-! ## What the command tells about itself -/

def usageLine : String := "Usage: no-only-tests [OPTIONS] [PATHS]...\n"

def versionText : String := "no-only-tests 0.1.0\n"

/-- The lines on the options, each with its name and what it is for. -/
def optionLines : List String :=
  ["      --root-dir <ROOT_DIR>  Repository root. Discovered from the nearest .git directory when omitted",
    "      --config <CONFIG>      JSON options file with optional \"block\" and \"focus\" arrays",
    "      --block <NAME>         Test function name to check (repeatable). Replaces the default list",
    "      --focus <NAME>         Focus modifier to disallow (repeatable). Replaces the default list",
    "      --fix                  Remove the focus modifiers in place",
    "      --tests-only           Only lint *.test.*, *.spec.* and __tests__/ files",
    "      --format <FORMAT>      [default: text] [possible values: text, json]",
    "  -h, --help                 Print help",
    "  -V, --version              Print version"]

def helpText : String :=
  let quote := (Char.ofNat 96).toString
  "Fail when test files contain focused tests such as " ++ quote ++ "describe.only(...)" ++ quote ++
    "\n\n" ++ usageLine ++
    "\nArguments:\n" ++
    "  [PATHS]...  Files or directories to lint. Defaults to the whole root directory\n" ++
    "\nOptions:\n" ++ String.join (optionLines.map fun line => line ++ "\n")

/-! ## Outcomes -/

/-- Why the settings of an invocation cannot be settled. -/
inductive InvocationFault where
  | settings (fault : SettingsFault)
  | duplicate (item : DuplicateItem)
  deriving DecidableEq, Repr

def InvocationFault.message : InvocationFault → String
  | .settings fault => fault.message
  | .duplicate item => item.message

/-- What comes out of an invocation: the exit code, the output, the lines of complaint, the paths of the
files that were linted, and the store. -/
structure Outcome where
  code : Nat
  output : List Char
  complaints : List String
  linted : List String
  store : Store

namespace Arguments

/-- The names given as arguments, if there are any, and else those that were there before. -/
def override (given : List String) (before : Option (List String)) : Option (List String) :=
  if given.isEmpty then before else some given

/-- The settings before options are loaded: for the root that is given, or else for the repository
around the directory that relative paths start from, or else for that directory itself. -/
def startingSettings (arguments : Arguments) (store : Store) : Settings :=
  match arguments.root with
  | some root => .ofRoot root
  | none => (Settings.discover store).getD (.ofRoot (Settings.absolutePath store.cwd))

def settings (arguments : Arguments) (store : Store) : Except InvocationFault Settings :=
  match (arguments.startingSettings store).loadOptions store arguments.optionFile with
  | .error fault => .error (.settings fault)
  | .ok loaded =>
    let options : RuleOptions :=
      ⟨override arguments.block loaded.options.block, override arguments.focus loaded.options.focus⟩
    match options.validate with
    | .error item => .error (.duplicate item)
    | .ok _ => .ok ⟨loaded.root, options, arguments.testsOnly⟩

end Arguments

def allPass (results : List FileResult) : Bool := results.all FileResult.passed

def exitCode (format : Format) (results : List FileResult) : Nat :=
  let passes := match format with
    | .text => Report.succeeds results
    | .json => allPass results
  if passes then 0 else 1

def opening (format : Format) (color : Bool) : List Char :=
  match format with
  | .text => Piece.writeAll color (Report.header focusRuleMeta)
  | .json => []

def part (format : Format) (color : Bool) (result : FileResult) : List Char :=
  match format with
  | .text => Piece.writeAll color (Report.filePart result)
  | .json => []

def ending (format : Format) (color : Bool) (results : List FileResult) : List Char :=
  match format with
  | .text => Piece.writeAll color (Report.summary results)
  | .json => Report.json focusRuleMeta results ++ ['\n']

def Arguments.reportFormat (arguments : Arguments) : Format := arguments.format.getD .text

def complaint (fault : InvocationFault) : String := "Error: " ++ fault.message

def lint (reader : Reader) (arguments : Arguments) (color : Bool) (store : Store) : Outcome :=
  match arguments.settings store with
  | .error fault => ⟨2, [], [complaint fault], [], store⟩
  | .ok settings =>
    let (results, after) := settings.run reader arguments.fix store arguments.paths
    let format := arguments.reportFormat
    let output := opening format color ++ results.flatMap (part format color) ++
      ending format color results
    ⟨exitCode format results, output, [], results.map FileResult.path, after⟩

def Request.outcome (reader : Reader) (request : Request) (color : Bool) (store : Store) : Outcome :=
  match request with
  | .run arguments => lint reader arguments color store
  | .help => ⟨0, helpText.toList, [], [], store⟩
  | .version => ⟨0, versionText.toList, [], [], store⟩
  | .misuse => ⟨2, [], [usageLine], [], store⟩

end FocusLint.CommandLine
