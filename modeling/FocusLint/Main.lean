import FocusLint.CommandLine.Invocation
import FocusLint.Syntax.Program

/-!
The command: it loads the files that an invocation may look at, lints them one by one, writes those that
were mended, and prints. Where the system does not permit a file to be written, the file is linted again in
a store that refuses it, and the run goes on.
-/

namespace FocusLint.Command

open CommandLine
open Syntax (grammarReader)

def namesOf (cwd : List String) (path : Path) : List String :=
  path.components.foldl (fun names component => match component with
    | .root => []
    | .current => names
    | .parent => names.dropLast
    | .normal name => names ++ [name]) cwd

def place (names : List String) : String := (Settings.absolutePath names).text

/-- Loads what some names lead to, with all that lies below it, directories that are never entered
apart. -/
partial def load (store : Store) (names : List String) : IO Store := do
  try
    let here ← IO.FS.realPath (place names)
    if ← here.isDir then
      let mut store := store.addDirectory names
      for entry in ← here.readDir do
        unless skippedDirectories.contains entry.fileName do
          store ← load store (names ++ [entry.fileName])
      return store
    else if ← here.pathExists then
      return store.addFile names (← IO.FS.readBinFile (place names))
    else return store
  catch _ => return store

/-- Loads the repository mark of a directory, if it has one, without what lies below it. -/
def loadMark (store : Store) (names : List String) : IO Store := do
  let mark := names ++ [repositoryMark]
  try
    let here ← IO.FS.realPath (place mark)
    if ← here.pathExists then return store.addDirectory mark else return store
  catch _ => return store

/-- The files that an invocation may look at. -/
def loadFor (arguments : Arguments) : IO Store := do
  let cwd := namesOf [] (.ofString (← IO.currentDir).toString)
  let start : Store := { Store.empty.addDirectory cwd with cwd }
  let marked ← ((List.range (cwd.length + 1)).map cwd.take).foldlM loadMark start
  let root := (arguments.startingSettings marked).root
  let listed := if arguments.paths.isEmpty then [root] else arguments.paths
  let optionFile := (Settings.ofRoot root).optionFile arguments.optionFile
  (optionFile.1 :: listed).foldlM (fun store path => load store (namesOf cwd path)) marked

def wantsColor : IO Bool := do
  if (← IO.getEnv "NO_COLOR").isSome then return false
  else if (← IO.getEnv "FORCE_COLOR").isSome then return true
  else (← IO.getStdout).isTty

/-- What the system says when a file cannot be written. -/
def refusalOf : IO.Error → FileFault
  | .alreadyExists _ code words | .otherError code words | .resourceBusy code words
  | .resourceVanished code words | .unsupportedOperation code words | .hardwareFault code words
  | .unsatisfiedConstraints code words | .illegalOperation code words | .protocolError code words
  | .timeExpired code words | .interrupted _ code words | .noFileOrDirectory _ code words
  | .invalidArgument _ code words | .permissionDenied _ code words | .resourceExhausted _ code words
  | .inappropriateType _ code words | .noSuchThing _ code words => .refused words code.toNat
  | error => .refused error.toString 0

/-- Writes a text to a file, unless the system refuses that. -/
def save (path : Path) (text : List Char) : IO (Option FileFault) := do
  try
    IO.FS.writeFile path.text (String.ofList text)
    return none
  catch error => return some (refusalOf error)

/-- Lints a file and writes it if something was removed from it. -/
def lintOne (settings : Settings) (mend : Bool) (store : Store) (path : Path) : IO (FileResult × Store) := do
  let (result, after) := settings.lintFile grammarReader mend store path
  if result.fixesApplied = 0 then return (result, after)
  else match after.read path with
    | .error _ => return (result, after)
    | .ok text => match ← save path text with
      | none => return (result, after)
      | some fault => return settings.lintFile grammarReader mend (store.refusing path fault) path

/-- Lints files one by one, printing the part of each; yields the results. -/
def lintAll (settings : Settings) (arguments : Arguments) (color timing : Bool) :
    Store → List Path → IO (List FileResult)
  | _, [] => return []
  | store, path :: others => do
    let before ← IO.monoMsNow
    let (result, after) ← lintOne settings arguments.fix store path
    if timing then
      IO.eprintln ("  [" ++ toString ((← IO.monoMsNow) - before) ++ "ms] " ++ result.path)
    IO.print (String.ofList (part arguments.reportFormat color result))
    let results ← lintAll settings arguments color timing after others
    return result :: results

/-- Lints what the arguments ask for; yields the exit code. -/
def lint (arguments : Arguments) : IO UInt32 := do
  let store ← loadFor arguments
  match arguments.settings store with
  | .error fault =>
    IO.eprintln (complaint fault)
    return 2
  | .ok settings =>
    let color ← wantsColor
    let timing := (← IO.getEnv "NO_ONLY_TESTS_TIMING").isSome
    let format := arguments.reportFormat
    IO.print (String.ofList (opening format color))
    let results ←
      lintAll settings arguments color timing store (settings.files store arguments.paths)
    IO.print (String.ofList (ending format color results))
    return (exitCode format results).toUInt32

/-- Prints what comes out of a request that lints nothing. -/
def answer (request : Request) : IO UInt32 := do
  let outcome := request.outcome grammarReader false .empty
  IO.print (String.ofList outcome.output)
  for line in outcome.complaints do IO.eprint line
  return outcome.code.toUInt32

end FocusLint.Command

def main (arguments : List String) : IO UInt32 :=
  match FocusLint.CommandLine.Request.ofArguments arguments with
  | .run arguments => FocusLint.Command.lint arguments
  | request => FocusLint.Command.answer request
