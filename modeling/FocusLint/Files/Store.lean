import FocusLint.Files.Path

/-!
Stored files.

A store is a tree of directories with files in it, together with the directory that relative paths start
from. A path is followed piece by piece, and every piece but the last has to lead to a directory; two
points lead back to the directory that holds the present one.

A store may refuse to open a file for writing. A write that is not refused is carried out to its end. Of a
file system this leaves out links of any kind, so that a file has one name only, names that are no text,
entries that cannot be looked at for want of a permission, and writes that break off half way.
-/

namespace FocusLint

inductive Entry where
  | file (content : ByteArray)
  | directory (entries : List (String × Entry))

inductive FileFault where
  | missing
  | notDirectory
  | isDirectory
  | notText
  /-- What the system says when it does not permit something, and the number of this error. -/
  | refused (words : String) (code : Nat)
  deriving DecidableEq, Repr

def FileFault.message : FileFault → String
  | .missing => "No such file or directory (os error 2)"
  | .notDirectory => "Not a directory (os error 20)"
  | .isDirectory => "Is a directory (os error 21)"
  | .notText => "stream did not contain valid UTF-8"
  | .refused words code => words ++ " (os error " ++ toString code ++ ")"

namespace Entry

/-- The entry that some names lead to. -/
def entryAt : List String → Entry → Option Entry
  | [], entry => some entry
  | name :: names, .directory entries =>
    match entries.lookup name with
    | some entry => entryAt names entry
    | none => none
  | _ :: _, .file _ => none

/-- The content of the file that some names lead to is replaced; nothing is created. -/
def rewriteAt (content : ByteArray) : List String → Entry → Entry
  | [], .file _ => .file content
  | [], .directory entries => .directory entries
  | name :: names, .directory entries =>
    .directory (entries.map fun entry =>
      if entry.1 = name then (entry.1, rewriteAt content names entry.2) else entry)
  | _ :: _, .file old => .file old

/-- An entry is added where some names lead to, with the directories on the way. What is there already
stays, unless a file is put in its place. -/
def addAt (added : Entry) : List String → Entry → Entry
  | [], old =>
    match added, old with
    | .directory [], .directory entries => .directory entries
    | added, _ => added
  | name :: names, .directory entries =>
    match entries.lookup name with
    | some _ => .directory (entries.map fun entry =>
        if entry.1 = name then (entry.1, addAt added names entry.2) else entry)
    | none => .directory (entries ++ [(name, addAt added names (.directory []))])
  | _ :: _, .file old => .file old

end Entry

/-- Stored files, with the directory that relative paths start from and with what is said when the file that
some names lead to must not be written. -/
structure Store where
  root : Entry
  cwd : List String
  refusal : List String → Option FileFault := fun _ => none

namespace Store

def empty : Store := { root := .directory [], cwd := [] }

/-- Follows one piece of a path from where some names lead to. -/
def follow (store : Store) (here : List String) (piece : List Char) :
    Except FileFault (List String) :=
  match store.root.entryAt here with
  | none => .error .missing
  | some (.file _) => .error .notDirectory
  | some (.directory entries) =>
    if piece = [] ∨ piece = ['.'] then .ok here
    else if piece = ['.', '.'] then .ok here.dropLast
    else
      let name := String.ofList piece
      match entries.lookup name with
      | some _ => .ok (here ++ [name])
      | none => .error .missing

def followAll (store : Store) (here : List String) : List (List Char) → Except FileFault (List String)
  | [] => .ok here
  | piece :: pieces => do
    let here ← store.follow here piece
    store.followAll here pieces

/-- The names that lead from the root to what is at a path. -/
def locate (store : Store) (path : Path) : Except FileFault (List String) :=
  if path.chars = [] then .error .missing
  else store.followAll (if path.isAbsolute then [] else store.cwd) (Path.pieces path.chars)

/-- What is at a path. -/
def entry? (store : Store) (path : Path) : Option Entry :=
  match store.locate path with
  | .ok names => store.root.entryAt names
  | .error _ => none

def contains (store : Store) (path : Path) : Bool := (store.entry? path).isSome

def isDirectory (store : Store) (path : Path) : Bool :=
  match store.entry? path with
  | some (.directory _) => true
  | _ => false

/-- The text of the file at a path. -/
def read (store : Store) (path : Path) : Except FileFault (List Char) := do
  let names ← store.locate path
  match store.root.entryAt names with
  | none => .error .missing
  | some (.directory _) => .error .isDirectory
  | some (.file content) =>
    match String.fromUTF8? content with
    | some text => .ok text.toList
    | none => .error .notText

/-- The store after a text has been written to the file at a path, which has to exist. -/
def write (store : Store) (path : Path) (text : List Char) : Except FileFault Store := do
  let names ← store.locate path
  match store.root.entryAt names, store.refusal names with
  | none, _ => .error .missing
  | some (.directory _), _ => .error .isDirectory
  | some (.file _), some fault => .error fault
  | some (.file _), none =>
    return { store with root := store.root.rewriteAt (String.ofList text).toUTF8 names }

/-- The store in which the file at a path must not be written. -/
def refusing (store : Store) (path : Path) (fault : FileFault) : Store :=
  match store.locate path with
  | .ok names => { store with refusal := fun other => if other = names then some fault else store.refusal other }
  | .error _ => store

/-- The store with one more file, and the directories on the way to it. -/
def addFile (store : Store) (names : List String) (content : ByteArray) : Store :=
  { store with root := Entry.addAt (.file content) names store.root }

/-- The store with one more directory, and those on the way to it. -/
def addDirectory (store : Store) (names : List String) : Store :=
  { store with root := Entry.addAt (.directory []) names store.root }

end Store

end FocusLint
