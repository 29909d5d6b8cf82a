import FocusLint.Syntax.Reading

/-!
Looking past a bracket.

Whether an opening bracket starts a parameter list or a destructuring target is told by what follows
its closing bracket. This module finds that place without reading what lies between: it keeps the
closing brackets that are still due and passes quoted text, comments and regular expressions as a
whole. A back quote among the closing brackets due stands for the text of a template.
-/

namespace FocusLint.Syntax

/-- What follows a quoted literal; there is nothing if the line ends before the literal does. -/
def afterQuoted (quote : Char) : List Char → Option (List Char)
  | [] => none
  | '\\' :: _ :: rest => afterQuoted quote rest
  | c :: rest =>
    if c == quote then some rest else if isLineEnd c then none else afterQuoted quote rest

/-- What follows a regular expression; the flag tells whether a character class is open. -/
def afterRegex (inClass : Bool) : List Char → Option (List Char)
  | [] => none
  | '\\' :: _ :: rest => afterRegex inClass rest
  | c :: rest =>
    if isLineEnd c then none
    else if c == '/' && !inClass then some rest
    else afterRegex (c == '[' || (inClass && c != ']')) rest

def afterBlockComment : List Char → List Char
  | [] => []
  | '*' :: '/' :: rest => rest
  | _ :: rest => afterBlockComment rest

def closing? : Char → Option Char
  | '(' => some ')'
  | '[' => some ']'
  | '{' => some '}'
  | _ => none

/-- A character after which a slash opens a regular expression. -/
def opensOperand (previous : Char) : Bool :=
  ['(', ',', '=', ':', '[', '!', '&', '|', '?', ';', '+', '-', '*', '%', '~', '^'].contains previous

/-- What follows the last bracket due. The first number bounds the steps, the list holds the closing
brackets due, innermost first, and the character is the last one passed that is not blank. -/
def afterBrackets : Nat → List Char → Char → List Char → Option (List Char)
  | _, [], _, rest => some rest
  | 0, _ :: _, _, _ => none
  | _ + 1, _ :: _, _, [] => none
  | steps + 1, due :: outer, previous, c :: rest =>
    if due == backQuote then
      if c == backQuote then afterBrackets steps outer c rest
      else if c == '\\' then afterBrackets steps (due :: outer) c (rest.drop 1)
      else if c == '$' && rest.head? == some '{' then
        afterBrackets steps ('}' :: due :: outer) '{' (rest.drop 1)
      else afterBrackets steps (due :: outer) c rest
    else if c == backQuote then afterBrackets steps (c :: due :: outer) c rest
    else if c == '"' || c == '\'' then
      afterBrackets steps (due :: outer) c ((afterQuoted c rest).getD rest)
    else if c == '/' && rest.head? == some '/' then
      afterBrackets steps (due :: outer) previous (rest.dropWhile fun c => !isLineEnd c)
    else if c == '/' && rest.head? == some '*' then
      afterBrackets steps (due :: outer) previous (afterBlockComment (rest.drop 1))
    else if c == '/' && opensOperand previous then
      afterBrackets steps (due :: outer) c ((afterRegex false rest).getD rest)
    else if isBlank c then afterBrackets steps (due :: outer) previous rest
    else match closing? c with
      | some close => afterBrackets steps (close :: due :: outer) c rest
      | none =>
        if c == ')' || c == ']' || c == '}' then afterBrackets steps outer c rest
        else afterBrackets steps (due :: outer) c rest

namespace Cursor

/-- The cursor behind the bracket that opens here and its contents, if it is ever closed. -/
def pastBracket? (cursor : Cursor) : Option Cursor :=
  match cursor.rest with
  | [] => none
  | c :: rest => do
    let close ← closing? c
    let behind ← afterBrackets (rest.length + 1) [close] c rest
    return (passGap .blank behind { cursor with rest := behind })

/-- Whether the bracket that opens here is followed by one of some operators. -/
def bracketThen (followers : List String) (cursor : Cursor) : Bool :=
  match cursor.pastBracket? with
  | none => false
  | some behind => followers.contains behind.operator

end Cursor

end FocusLint.Syntax
