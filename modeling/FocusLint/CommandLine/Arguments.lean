import FocusLint.Files.Path

/-!
Arguments of the command line.

Arguments are read from left to right, and the first one that is wrong, or that asks for help or for the
version, decides. An option that takes a value takes what follows an equals sign or else the next
argument, which does not start with a dash, unless it is a single dash. Behind two dashes all arguments
are paths. Arguments that are no text are left out, and so are the words about wrong ones, of which only the
line on the usage is told.
-/

namespace FocusLint.CommandLine

inductive Format where
  | text
  | json
  deriving DecidableEq, Repr

structure Arguments where
  paths : List Path
  root : Option Path
  optionFile : Option Path
  block : List String
  focus : List String
  fix : Bool
  testsOnly : Bool
  format : Option Format
  deriving DecidableEq, Repr

inductive Request where
  | run (arguments : Arguments)
  | help
  | version
  | misuse
  deriving DecidableEq, Repr

inductive ValueOption where
  | root
  | optionFile
  | block
  | focus
  | format
  deriving DecidableEq, Repr

inductive Switch where
  | fix
  | testsOnly
  | help
  | version
  deriving DecidableEq, Repr

inductive OptionName where
  | valued (option : ValueOption)
  | switch (option : Switch)
  deriving DecidableEq, Repr

def OptionName.ofText? : String → Option OptionName
  | "root-dir" => some (.valued .root)
  | "config" => some (.valued .optionFile)
  | "block" => some (.valued .block)
  | "focus" => some (.valued .focus)
  | "format" => some (.valued .format)
  | "fix" => some (.switch .fix)
  | "tests-only" => some (.switch .testsOnly)
  | "help" => some (.switch .help)
  | "version" => some (.switch .version)
  | _ => none

/-- An argument as it is written: an end of options, an option with what follows an equals sign, letters
behind one dash, or a plain word. -/
inductive Argument where
  | endOfOptions
  | long (name : String) (value : Option String)
  | short (letters : List Char)
  | word (text : String)
  deriving DecidableEq, Repr

def Argument.ofText (text : String) : Argument :=
  match text.toList with
  | ['-', '-'] => .endOfOptions
  | '-' :: '-' :: rest =>
    let name := rest.takeWhile (· ≠ '=')
    let value := match rest.drop name.length with
      | [] => none
      | _ :: value => some (String.ofList value)
    .long (String.ofList name) value
  | ['-'] => .word text
  | '-' :: letters => .short letters
  | _ => .word text

namespace Arguments

def unset : Arguments := ⟨[], none, none, [], [], false, false, none⟩

def addPath? (arguments : Arguments) (text : String) : Option Arguments :=
  if text = "" then none else some { arguments with paths := arguments.paths ++ [.ofString text] }

/-- A value for an option that can be given once and takes a path. -/
def givenPath? (before : Option Path) (text : String) : Option (Option Path) :=
  if before.isSome || text = "" then none else some (some (.ofString text))

/-- Arguments with a value for an option, unless the value is refused or the option is repeated. -/
def set? (arguments : Arguments) (option : ValueOption) (text : String) : Option Arguments :=
  match option with
  | .root => do return { arguments with root := ← givenPath? arguments.root text }
  | .optionFile => do return { arguments with optionFile := ← givenPath? arguments.optionFile text }
  | .block => some { arguments with block := arguments.block ++ [text] }
  | .focus => some { arguments with focus := arguments.focus ++ [text] }
  | .format =>
    if arguments.format.isSome then none
    else if text = "text" then some { arguments with format := some .text }
    else if text = "json" then some { arguments with format := some .json }
    else none

def addPaths (arguments : Arguments) : List String → Request
  | [] => .run arguments
  | text :: others =>
    match arguments.addPath? text with
    | some arguments => arguments.addPaths others
    | none => .misuse

/-- What letters behind one dash ask for. -/
def ofLetters : List Char → Request
  | 'h' :: _ => .help
  | 'V' :: _ => .version
  | _ => .misuse

/-- Reads arguments. `pending` is an option whose value has not come yet. -/
def read (arguments : Arguments) (pending : Option ValueOption) : List String → Request
  | [] => if pending.isSome then .misuse else .run arguments
  | text :: others =>
    match pending, Argument.ofText text with
    | some option, .word value =>
      match arguments.set? option value with
      | some arguments => arguments.read none others
      | none => .misuse
    | some _, _ => .misuse
    | none, .endOfOptions => arguments.addPaths others
    | none, .short letters => ofLetters letters
    | none, .word text =>
      match arguments.addPath? text with
      | some arguments => arguments.read none others
      | none => .misuse
    | none, .long name value =>
      match OptionName.ofText? name, value with
      | some (.valued option), some value =>
        match arguments.set? option value with
        | some arguments => arguments.read none others
        | none => .misuse
      | some (.valued option), none => arguments.read (some option) others
      | some (.switch .help), none => .help
      | some (.switch .version), none => .version
      | some (.switch .fix), none =>
        if arguments.fix then .misuse else { arguments with fix := true }.read none others
      | some (.switch .testsOnly), none =>
        if arguments.testsOnly then .misuse else { arguments with testsOnly := true }.read none others
      | some (.switch _), some _ => .misuse
      | none, _ => .misuse

end Arguments

def Request.ofArguments (arguments : List String) : Request := Arguments.unset.read none arguments

end FocusLint.CommandLine
