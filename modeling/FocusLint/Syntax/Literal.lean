import FocusLint.Syntax.Grammar

/-!
Names and literals.

Quoted text is cut into plain fragments and special pieces: escapes in strings and templates,
character references in the text of elements.
-/

namespace FocusLint.Syntax

open Reading

/-! ## Names -/

/-- The words that never name a variable. -/
def reservedWords : List String :=
  ["break", "case", "catch", "class", "const", "continue", "debugger", "default", "delete", "do", "else",
    "export", "extends", "false", "finally", "for", "function", "if", "import", "in", "instanceof", "new",
    "null", "return", "super", "switch", "this", "throw", "true", "try", "typeof", "var", "void", "while",
    "with"]

def reserved : List (List Char) := reservedWords.map String.toList

def leafOf (kind : String) (n : Nat) : Reading Tree :=
  leaf kind (move (Cursor.token n))

/-- Any word, as a node of the given kind. -/
def anyName (kind : String) : Reading Tree := do
  let word ← look Cursor.word
  check !word.isEmpty
  leafOf kind word.length

/-- A word that is not reserved, as a node of the given kind. -/
def freeName (kind : String) : Reading Tree := do
  let word ← look Cursor.word
  check (!word.isEmpty && !reserved.contains word)
  leafOf kind word.length

def identifier : Reading Tree := freeName "identifier"

/-- One of some words, as a node of the given kind. -/
def wordAmong (kind : String) (words : List String) : Reading Tree := do
  let word ← look Cursor.word
  check (words.contains (String.ofList word))
  leafOf kind word.length

/-- A private name: a hash sign and a word. -/
def privateName : Reading Tree := do
  let rest ← look fun cursor => cursor.rest
  check (rest.head? == some '#')
  let word := wordOf false (rest.drop 1)
  check !word.isEmpty
  leafOf "private_property_identifier" (word.length + 1)

/-! ## Quoted text -/

/-- Where the cutting of quoted text stands: in a fragment, or in a special piece of which some
characters are left. -/
inductive Cut where
  | fragment (start : Nat)
  | special (kind : String) (start left : Nat)

/-- The fragment between two positions; an empty one is none. -/
def fragment (start stop : Nat) : List Tree :=
  if start < stop then [.unnumbered "string_fragment" ⟨start, stop⟩ []] else []

/-- Cuts quoted text into pieces, up to the place where it stops. Special pieces are told by their kind
and their number of characters. -/
def cutText (stops : List Char → Bool) (special : List Char → Option (String × Nat)) :
    Cut → List Char → Nat → Option (List Tree × List Char × Nat)
  | _, [], _ => none
  | .fragment start, c :: rest, offset =>
    if stops (c :: rest) then some (fragment start offset, c :: rest, offset)
    else match special (c :: rest) with
      | some (kind, n + 2) => do
        let (pieces, far) ←
          cutText stops special (.special kind offset (n + 1)) rest (offset + c.utf8Size)
        return (fragment start offset ++ pieces, far)
      | _ => cutText stops special (.fragment start) rest (offset + c.utf8Size)
  | .special kind start left, c :: rest, offset =>
    let stop := offset + c.utf8Size
    if left ≤ 1 then do
      let (pieces, far) ← cutText stops special (.fragment stop) rest stop
      return (.unnumbered kind ⟨start, stop⟩ [] :: pieces, far)
    else cutText stops special (.special kind start (left - 1)) rest stop

def quotedPieces (stops : List Char → Bool) (special : List Char → Option (String × Nat)) :
    Reading (List Tree) := fun cursor => do
  let (pieces, rest, offset) ← cutText stops special (.fragment cursor.offset) cursor.rest cursor.offset
  return (pieces, { cursor with rest := rest, offset := offset, last := offset, lineBreak := false })

/-- The number of characters of an escape behind its backslash. -/
def escapeLength : List Char → Nat
  | 'u' :: '{' :: rest => (rest.takeWhile isHexDigit).length + 3
  | 'u' :: _ => 5
  | 'x' :: _ => 3
  | '\r' :: c :: _ => if isLineFeed c then 2 else 1
  | rest =>
    let octal := (rest.take 3).takeWhile fun c => '0' ≤ c && c ≤ '7'
    if octal.isEmpty then 1 else octal.length

/-- The escape that starts a text, if any. -/
def escape? (text : List Char) : Option (String × Nat) :=
  match text with
  | '\\' :: rest => some ("escape_sequence", escapeLength rest + 1)
  | _ => none

/-- The number of characters of the character reference that starts a text. -/
def referenceLength? (text : List Char) : Option Nat :=
  match text with
  | '&' :: rest =>
    let body := match rest with
      | '#' :: 'x' :: digits | '#' :: 'X' :: digits => (digits.takeWhile isHexDigit).length + 2
      | '#' :: digits => (digits.takeWhile Char.isDigit).length + 1
      | letters => (letters.takeWhile Char.isAlpha).length
    if (rest.drop body).head? == some ';' && decide (0 < body) then some (body + 2) else none
  | _ => none

def reference? (text : List Char) : Option (String × Nat) :=
  (referenceLength? text).map fun n => ("html_character_reference", n)

/-- The quote that opens a string here. -/
def openingQuote : Reading Char := fun cursor =>
  match cursor.rest with
  | '"' :: _ => some ('"', cursor)
  | '\'' :: _ => some ('\'', cursor)
  | _ => none

def stringLiteral : Reading Tree := do
  let quote ← openingQuote
  node "string" (do
    raw quote
    let pieces ← quotedPieces
      (fun rest => rest.head? == some quote || (rest.head?.map isLineEnd).getD false) escape?
    mark quote
    return pieces)

/-- The string value of an element's attribute, which may run over lines and holds no escapes. -/
def attributeString : Reading Tree := do
  let quote ← openingQuote
  node "string" (do
    raw quote
    let pieces ← quotedPieces (fun rest => rest.head? == some quote) reference?
    mark quote
    return pieces)

/-- The text of a template up to its end or to something put into it. -/
def templatePieces : Reading (List Tree) :=
  quotedPieces (fun rest =>
    rest.head? == some backQuote || (rest.head? == some '$' && (rest.drop 1).head? == some '{')) escape?

def templateOf (kind : String) (inserted : Reading Tree) : Reading Tree :=
  node kind (do
    raw backQuote
    let first ← templatePieces
    let others ← many (do
      let value ← inserted
      return value :: (← templatePieces))
    mark backQuote
    return first ++ others.flatten)

def insertedOf (kind : String) (value : Reading Tree) : Reading Tree :=
  node kind (do
    raw '$'
    mark '{'
    let value ← value
    raw '}'
    return [value])

/-- A template whose inserted values are expressions. -/
def Grammar.template (g : Grammar) : Reading Tree :=
  templateOf "template_string" (insertedOf "template_substitution" g.expressions)

/-! ## Numbers and regular expressions -/

/-- The number of characters of a run of digits that may be grouped by underscores. -/
def digitsLength (text : List Char) : Nat :=
  (text.takeWhile fun c => c.isDigit || c == '_').length

def exponentLength : List Char → Nat
  | e :: rest =>
    if e == 'e' || e == 'E' then
      match rest with
      | '+' :: digits | '-' :: digits => digitsLength digits + 2
      | digits => digitsLength digits + 1
    else 0
  | [] => 0

def numberLength (text : List Char) : Nat :=
  let based := match text with
    | '0' :: b :: rest =>
      if ['x', 'X', 'b', 'B', 'o', 'O'].contains b then
        (rest.takeWhile fun c => isHexDigit c || c == '_').length + 2
      else 0
    | _ => 0
  if based ≠ 0 then based + (if (text.drop based).head? == some 'n' then 1 else 0)
  else
    let whole := digitsLength text
    match text.drop whole with
    | 'n' :: _ => whole + 1
    | '.' :: rest =>
      let places := digitsLength rest
      whole + 1 + places + exponentLength (rest.drop places)
    | rest => whole + exponentLength rest

def numberLiteral : Reading Tree := do
  let text ← look fun cursor => cursor.rest
  check (match text with
    | '.' :: d :: _ => d.isDigit
    | d :: _ => d.isDigit
    | [] => false)
  leafOf "number" (numberLength text)

def regexLiteral : Reading Tree :=
  node "regex" (do
    raw '/'
    let text ← look fun cursor => cursor.rest
    match afterRegex false text with
    | none => failure
    | some behind =>
      let body ← leaf "regex_pattern" (move (Cursor.skip (text.length - behind.length - 1)))
      let flags := behind.takeWhile fun c => 'a' ≤ c && c ≤ 'z'
      if flags.isEmpty then
        mark '/'
        return [body]
      else
        raw '/'
        return [body, ← leafOf "regex_flags" flags.length])

/-! ## Property names -/

def Grammar.computedName (g : Grammar) : Reading Tree :=
  node "computed_property_name" (do
    mark '['
    let value ← g.expression
    mark ']'
    return [value])

/-- The name of a property: a word, a private name, a string, a number or a computed name. -/
def Grammar.propertyName (g : Grammar) : Reading Tree :=
  anyName "property_identifier" <|> privateName <|> stringLiteral <|> numberLiteral <|> g.computedName

end FocusLint.Syntax
