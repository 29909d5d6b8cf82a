/-!
Styled text.

A report is made of pieces, each of them plain or in one style. With colour a styled piece stands
between the sequence that turns its style on and the one that turns it off; without colour all pieces
are plain.
-/

namespace FocusLint

inductive Style where
  | bold
  | dimmed
  | underline
  | red
  | green
  | yellow
  deriving DecidableEq, Repr

namespace Style

def sequence (digits : List Char) : List Char := ['\x1b', '['] ++ digits ++ ['m']

def opening : Style → List Char
  | .bold => sequence ['1']
  | .dimmed => sequence ['2']
  | .underline => sequence ['4']
  | .red => sequence ['3', '1']
  | .green => sequence ['3', '2']
  | .yellow => sequence ['3', '3']

def closing : Style → List Char
  | .bold | .dimmed | .underline => sequence ['0']
  | .red | .green | .yellow => sequence ['3', '9']

end Style

/-- A piece of text, plain or in a style. -/
structure Piece where
  style : Option Style
  text : List Char
  deriving DecidableEq, Repr

namespace Piece

def plain (text : String) : Piece := ⟨none, text.toList⟩

def styled (style : Style) (text : String) : Piece := ⟨some style, text.toList⟩

def write (color : Bool) (piece : Piece) : List Char :=
  match color, piece.style with
  | true, some style => style.opening ++ piece.text ++ style.closing
  | _, _ => piece.text

def writeAll (color : Bool) (pieces : List Piece) : List Char := pieces.flatMap (write color)

end Piece

end FocusLint
