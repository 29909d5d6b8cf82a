import FocusLint.Decimal.Shortest
import FocusLint.Text.Bytes
import FocusLint.Text.Quoted

/-!
What can be wrong with a JSON text, and where.

A fault is placed by what is left of the text when it is met, and by how many bytes further on it is
noticed. It is told with the line, counted from one, and with the number of bytes before it on that
line.
-/

namespace FocusLint.Json

/-- What stands where something else is wanted. -/
inductive Found where
  | null
  | boolean (value : Bool)
  | integer (value : Int)
  | decimal (negative : Bool) (value : Decimal.Double)
  | text (value : String)
  | sequence
  | map
  deriving DecidableEq, Repr

/-- What is wanted: a text, a list or an object of a named shape. -/
inductive Wanted where
  | text
  | sequence
  | structure (name : String)
  deriving DecidableEq, Repr

/-- What is wrong with a text. -/
inductive Cause where
  | endOfValue
  | endOfList
  | endOfObject
  | endOfText
  | colon
  | listSeparator
  | objectSeparator
  | word
  | value
  | escape
  | number
  | numberRange
  | loneSurrogate
  | hexEnd
  | controlCharacter
  | trailingComma
  | trailingCharacters
  | keyText
  | wrongType (found : Found) (wanted : Wanted)
  | unknownField (name : String) (known : List String)
  | duplicateField (name : String)
  deriving DecidableEq, Repr

/-- A cause, what is left of the text, and how many bytes further on the fault is noticed. -/
structure Fault where
  cause : Cause
  rest : List Char
  ahead : Nat
  deriving DecidableEq, Repr

/-! ## Words -/

def inBackQuotes (text : String) : String :=
  let quote := (Char.ofNat 96).toString
  quote ++ text ++ quote

namespace Found

def describe : Found → String
  | .null => "null"
  | .boolean value => "boolean " ++ inBackQuotes (if value then "true" else "false")
  | .integer value => "integer " ++ inBackQuotes (toString value)
  | .decimal negative value =>
    let sign := if negative then "-" else ""
    "floating point " ++ inBackQuotes (sign ++ String.ofList value.shortest.write)
  | .text value => "string " ++ Text.quoted value
  | .sequence => "sequence"
  | .map => "map"

end Found

def Wanted.describe : Wanted → String
  | .text => "a string"
  | .sequence => "a sequence"
  | .structure name => "struct " ++ name

def Cause.message : Cause → String
  | .endOfValue => "EOF while parsing a value"
  | .endOfList => "EOF while parsing a list"
  | .endOfObject => "EOF while parsing an object"
  | .endOfText => "EOF while parsing a string"
  | .colon => "expected " ++ inBackQuotes ":"
  | .listSeparator => "expected " ++ inBackQuotes "," ++ " or " ++ inBackQuotes "]"
  | .objectSeparator => "expected " ++ inBackQuotes "," ++ " or " ++ inBackQuotes "\x7d"
  | .word => "expected ident"
  | .value => "expected value"
  | .escape => "invalid escape"
  | .number => "invalid number"
  | .numberRange => "number out of range"
  | .loneSurrogate => "lone leading surrogate in hex escape"
  | .hexEnd => "unexpected end of hex escape"
  | .controlCharacter => "control character (\\u0000-\\u001F) found while parsing a string"
  | .trailingComma => "trailing comma"
  | .trailingCharacters => "trailing characters"
  | .keyText => "key must be a string"
  | .wrongType found wanted => "invalid type: " ++ found.describe ++ ", expected " ++ wanted.describe
  | .unknownField name known =>
    "unknown field " ++ inBackQuotes name ++ ", expected " ++
      " or ".intercalate (known.map inBackQuotes)
  | .duplicateField name => "duplicate field " ++ inBackQuotes name

/-! ## Places -/

namespace Fault

/-- The position of a fault in the text that was read; it does not pass the end. -/
def position (fault : Fault) (text : List Char) : Nat :=
  min (Text.size text - Text.size fault.rest + fault.ahead) (Text.size text)

/-- The number of line feeds wholly before a position, and the number of bytes between the last of them
and the position, if `column` bytes lie between a line feed and the text. -/
def place (column : Nat) : Nat → List Char → Nat × Nat
  | position, [] => (0, column + position)
  | position, c :: rest =>
    if position < c.utf8Size then (0, column + position)
    else if c = '\n' then
      let (lines, column) := place 0 (position - 1) rest
      (lines + 1, column)
    else place (column + c.utf8Size) (position - c.utf8Size) rest

/-- The words for a fault, with its place in the text that was read. -/
def message (fault : Fault) (text : List Char) : String :=
  let (lines, column) := place 0 (fault.position text) text
  fault.cause.message ++ " at line " ++ toString (lines + 1) ++ " column " ++ toString column

end Fault

end FocusLint.Json
