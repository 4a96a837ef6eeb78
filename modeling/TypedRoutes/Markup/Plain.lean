import TypedRoutes.Markup.Folding

/-!
# Plain scalars

A plain scalar has no quotes.  It ends at a colon that a blank follows, at a number sign after a
blank, at the mark of a document, at a line that is indented less than the scalar must be, and in
braces at a comma, a bracket or a brace.
-/

namespace TypedRoutes
namespace Markup

/-- Commas, brackets and braces, which separate the parts of a collection. -/
def isSeparator (c : Char) : Bool :=
  ",[]\x7b\x7d".toList.contains c

/-- The characters that have a meaning of their own at the start of a word. -/
def indicators : List Char :=
  "-?:,[]\x7b\x7d#&*!|>'\"%@".toList ++ [Char.ofNat 96]

/-- Whether a plain scalar starts here. -/
def startsPlain (inBraces : Bool) (c : Char) (rest : List Char) : Bool :=
  !isBlank c && (!indicators.contains c || c == '-' ||
    (!inBraces && (c == '?' || c == ':') && !endsWord rest))

/-- Where a reader is in a plain scalar. -/
inductive PlainPlace
  | inWord
  | inBlanks
  /-- After a line break, in a column. -/
  | inMargin (column : Nat)

namespace PlainPlace

/-- Whether a line break was read since the last word. -/
def isMargin : PlainPlace → Bool
  | inMargin _ => true
  | inWord | inBlanks => false

/-- The place after a blank. -/
def afterBlank : PlainPlace → PlainPlace
  | inMargin column => inMargin (column + 1)
  | inWord | inBlanks => inBlanks

/-- Whether the scalar has ended before a word that starts here. -/
def endsBefore (inBraces : Bool) (indent : Nat) (cs : List Char) : PlainPlace → Bool
  | inWord => false
  | inBlanks => cs.head? == some '#'
  | inMargin column =>
    (!inBraces && column < indent) || cs.head? == some '#' ||
      (column == 0 && startsDocumentMark cs)

end PlainPlace

/-- The pieces of a plain scalar, whether it ended on a later line than its last word, and what
follows it. -/
abbrev PlainText := List Piece × Bool × List Char

/-- The pieces from a place on of a plain scalar whose lines are indented by at least `indent`. -/
def plainPieces? (inBraces : Bool) (indent : Nat) : PlainPlace → List Char → Option PlainText
  | place, [] => some ([], place.isMargin, [])
  | place, c :: rest =>
    let next := fun place piece =>
      (plainPieces? inBraces indent place rest).map fun (pieces, plain) => (piece :: pieces, plain)
    if isBreak c then next (.inMargin 0) (.lineBreak c)
    else if isBlank c then
      match place with
      | .inMargin column =>
        if c == '\t' && column < indent then none else next place.afterBlank (.blank c)
      | .inWord | .inBlanks => next place.afterBlank (.blank c)
    else if place.endsBefore inBraces indent (c :: rest) then some ([], place.isMargin, c :: rest)
    else if inBraces && c == ':' && rest.head?.any (fun d => isSeparator d || d == '?') then none
    else if (c == ':' && endsWord rest) || (inBraces && isSeparator c) then
      some ([], place.isMargin, c :: rest)
    else next .inWord (.text c)

/-- The text of the plain scalar at the start of a list, whether it ended on a later line than its
last word, and what follows it. -/
def plain? (inBraces : Bool) (indent : Nat) (cs : List Char) : Option (String × Bool × List Char) :=
  (plainPieces? inBraces indent .inWord cs).map fun (pieces, ended, rest) =>
    (fold (dropLastGap pieces), ended, rest)

end Markup
end TypedRoutes
