import TypedRoutes.Markup.Character

/-!
# Folding lines

A scalar may be written over several lines.  Blanks within a line are kept.  Blanks around a line
break are dropped; a single line feed stands for a space, and of several the first is dropped.
-/

namespace TypedRoutes
namespace Markup

/-- A part of a scalar as it is written. -/
inductive Piece
  /-- A character of the text. -/
  | text (c : Char)
  | blank (c : Char)
  | lineBreak (c : Char)
  /-- A line break that is escaped and leaves no trace. -/
  | joint

namespace Piece

/-- A character that stands for itself. -/
def ofChar (c : Char) : Piece :=
  if isBreak c then lineBreak c else if isBlank c then blank c else text c

/-- Whether a piece is no character of the text. -/
def isGap : Piece → Bool
  | text _ => false
  | blank _ | lineBreak _ | joint => true

end Piece

/-- What was read since the last character of the text. -/
inductive Gap
  | blanks (cs : List Char)
  /-- Line breaks, the first of which may have been escaped. -/
  | breaks (first : Option Char) (others : List Char)

namespace Gap

/-- The text that a gap stands for. -/
def text : Gap → List Char
  | blanks cs => cs
  | breaks (some '\n') [] => [' ']
  | breaks (some '\n') others => others
  | breaks first others => first.toList ++ others

/-- A gap with one more blank, which counts only if no line break precedes. -/
def addBlank (c : Char) : Gap → Gap
  | blanks cs => blanks (cs ++ [c])
  | breaks first others => breaks first others

/-- A gap with one more line break. -/
def addBreak (c : Char) : Gap → Gap
  | blanks _ => breaks (some c) []
  | breaks first others => breaks first (others ++ [c])

end Gap

/-- The text of the pieces that follow a gap. -/
def foldAfter : Gap → List Piece → List Char
  | gap, [] => gap.text
  | gap, .text c :: rest => gap.text ++ c :: foldAfter (.blanks []) rest
  | gap, .blank c :: rest => foldAfter (gap.addBlank c) rest
  | gap, .lineBreak c :: rest => foldAfter (gap.addBreak c) rest
  | gap, .joint :: rest => gap.text ++ foldAfter (.breaks none []) rest

/-- The text of a scalar's pieces. -/
def fold (pieces : List Piece) : String :=
  String.ofList (foldAfter (.blanks []) pieces)

/-- Pieces without those after the last character of the text. -/
def dropLastGap (pieces : List Piece) : List Piece :=
  (pieces.reverse.dropWhile Piece.isGap).reverse

end Markup
end TypedRoutes
