import FocusLint.Json.Text

/-!
JSON values, written over several lines.

Every element of an array and every member of an object stands on a line of its own, two blanks further
in than the line that opens it. An empty array or object is written in two characters.
-/

namespace FocusLint.Json

inductive Value where
  | null
  | boolean (value : Bool)
  | number (value : Nat)
  | text (value : String)
  | array (elements : List Value)
  | object (members : List (String × Value))

namespace Value

/-- The end of a line and the blanks at the start of the next one. -/
def newLine (depth : Nat) : List Char := '\n' :: List.replicate (2 * depth) ' '

mutual

/-- A value as it is written at some depth. -/
def write (depth : Nat) : Value → List Char
  | .null => "null".toList
  | .boolean true => "true".toList
  | .boolean false => "false".toList
  | .number n => (toString n).toList
  | .text characters => writeText characters.toList
  | .array [] => ['[', ']']
  | .array (first :: others) =>
    ['['] ++ newLine (depth + 1) ++ first.write (depth + 1) ++ writeElements (depth + 1) others ++
      newLine depth ++ [']']
  | .object [] => ['{', '}']
  | .object ((key, value) :: others) =>
    ['{'] ++ newLine (depth + 1) ++ writeText key.toList ++ [':', ' '] ++ value.write (depth + 1) ++
      writeMembers (depth + 1) others ++ newLine depth ++ ['}']

/-- The elements of an array behind the first one. -/
def writeElements (depth : Nat) : List Value → List Char
  | [] => []
  | value :: others => [','] ++ newLine depth ++ value.write depth ++ writeElements depth others

/-- The members of an object behind the first one. -/
def writeMembers (depth : Nat) : List (String × Value) → List Char
  | [] => []
  | (key, value) :: others =>
    [','] ++ newLine depth ++ writeText key.toList ++ [':', ' '] ++ value.write depth ++
      writeMembers depth others

end

end Value

end FocusLint.Json
