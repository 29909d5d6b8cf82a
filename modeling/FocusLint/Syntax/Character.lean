/-!
Character classes of the source language.

Blanks are the white space of Unicode with a few invisible characters; a name is made of everything
that is neither blank, control, digit nor punctuation, and of digits after the first character.
-/

namespace FocusLint.Syntax

def backQuote : Char := Char.ofNat 96

/-- Line ends that separate statements and close a line comment. -/
def isLineFeed (c : Char) : Bool :=
  c == '\n' || c == '\u2028' || c == '\u2029'

/-- Line ends, the carriage return included. -/
def isLineEnd (c : Char) : Bool :=
  c == '\r' || isLineFeed c

/-- White space that may stand between two tokens. -/
def isBlank (c : Char) : Bool :=
  let n := c.toNat
  n == 32 || (9 ≤ n && n ≤ 13) ||
    (128 ≤ n && (n == 0x85 || n == 0xA0 || n == 0x1680 || (0x2000 ≤ n && n ≤ 0x200B) ||
      n == 0x2028 || n == 0x2029 || n == 0x202F || n == 0x205F || n == 0x2060 || n == 0x3000 ||
      n == 0xFEFF))

/-- The printable ASCII characters that never stand in a name. -/
def punctuation : List Char :=
  [':', ';', Char.ofNat 96, '"', '\'', '@', '#', '.', ',', '|', '^', '&', '<', '=', '>', '+', '-', '*',
    '/', '\\', '%', '?', '!', '~', '(', ')', '[', ']', '{', '}']

/-- A character that may open a name. -/
def isNameStart (c : Char) : Bool :=
  decide (0x1F < c.toNat) && !isBlank c && !c.isDigit && !punctuation.contains c

/-- A character that may continue a name. -/
def isNameRest (c : Char) : Bool :=
  c.isDigit || isNameStart c

def isHexDigit (c : Char) : Bool :=
  c.isDigit || ('a' ≤ c && c ≤ 'f') || ('A' ≤ c && c ≤ 'F')

end FocusLint.Syntax
