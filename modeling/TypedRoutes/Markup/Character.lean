import TypedRoutes.Text.Blank

/-!
# Characters and lines of markup

Markup is text in lines.  A line ends in a line feed, in a carriage return, in both, in a next-line
character, or in a line or paragraph separator.  The first four are one and the same line break and
are read as a line feed; the two separators are kept as they are.
-/

namespace TypedRoutes
namespace Markup

/-- The characters that may occur: tab, the ends of lines, and everything but control characters
and the last two code points of the basic plane. -/
def isAllowed (c : Char) : Bool :=
  let n := c.toNat
  n == 9 || n == 10 || n == 13 || (0x20 ≤ n && n ≤ 0x7E) || n == 0x85 ||
    (0xA0 ≤ n && n ≤ 0xFFFD) || 0x10000 ≤ n

/-- Markup in which every line break is a single character. -/
def unifyBreaks : List Char → List Char
  | [] => []
  | '\r' :: '\n' :: rest => '\n' :: unifyBreaks rest
  | c :: rest => (if c == '\r' || c.toNat == 0x85 then '\n' else c) :: unifyBreaks rest

/-- A line feed, a line separator or a paragraph separator. -/
def isBreak (c : Char) : Bool :=
  c == '\n' || c.toNat == 0x2028 || c.toNat == 0x2029

/-- A space or a tab. -/
def isBlank (c : Char) : Bool :=
  c == ' ' || c == '\t'

/-- A letter, a digit, a hyphen or an underscore. -/
def isWordCharacter (c : Char) : Bool :=
  c.isAlphanum || c == '-' || c == '_'

/-- Whether nothing, a blank or a line break follows. -/
def endsWord : List Char → Bool
  | [] => true
  | c :: _ => isBlank c || isBreak c

/-- Whether a list starts with a mark that stands alone. -/
def startsMark (mark : String) (cs : List Char) : Bool :=
  (Text.dropStart? mark.toList cs).any endsWord

/-- Whether a line starts with the mark that begins a document, or with the one that ends it. -/
def startsDocumentMark (line : List Char) : Bool :=
  startsMark "---" line || startsMark "..." line

/-- What follows the blanks and the comment at the end of a line, the line break included. -/
def restOfLine? (cs : List Char) : Option (List Char) :=
  match cs.dropWhile isBlank with
  | [] => some []
  | c :: rest =>
    if isBreak c then some rest
    else if c == '#' then some ((rest.dropWhile fun d => !isBreak d).drop 1)
    else none

/-- What is still to be read, with the number of the line and of the column where it starts. -/
structure Cursor where
  rest : List Char
  line : Nat
  column : Nat

namespace Cursor

/-- The cursor behind the next character. -/
def next (cursor : Cursor) : Cursor :=
  match cursor.rest with
  | [] => cursor
  | c :: rest =>
    if isBreak c then ⟨rest, cursor.line + 1, 0⟩ else ⟨rest, cursor.line, cursor.column + 1⟩

/-- The cursor behind the next `n` characters. -/
def skip : Nat → Cursor → Cursor
  | 0, cursor => cursor
  | n + 1, cursor => skip n cursor.next

/-- The cursor at a later place, given by what is still to be read there. -/
def moveTo (cursor : Cursor) (rest : List Char) : Cursor :=
  skip (cursor.rest.length - rest.length) cursor

end Cursor
end Markup
end TypedRoutes
