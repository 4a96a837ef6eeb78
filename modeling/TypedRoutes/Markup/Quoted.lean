import TypedRoutes.Markup.Folding
import TypedRoutes.Text.Numeral

/-!
# Quoted scalars

In single quotes a quote is written twice and nothing else is escaped.  In double quotes a backslash
starts an escape.  Quoted text ends at its closing quote; the mark of a document at the start of a
line cannot be part of it.
-/

namespace TypedRoutes
namespace Markup

/-- The pieces of a quoted scalar, and what follows its closing quote. -/
abbrev QuotedText := List Piece × List Char

/-- A quoted scalar with one more piece in front. -/
def QuotedText.cons (piece : Piece) (quoted : QuotedText) : QuotedText :=
  (piece :: quoted.1, quoted.2)

/-- Whether a quoted scalar breaks off because a document mark follows this line break. -/
def breaksOff (c : Char) (rest : List Char) : Bool :=
  isBreak c && startsDocumentMark rest

/-- The text after an opening single quote. -/
def singleQuoted? : List Char → Option QuotedText
  | [] => none
  | '\'' :: '\'' :: rest => (singleQuoted? rest).map (.cons (.text '\''))
  | c :: rest =>
    if c == '\'' then some ([], rest)
    else if breaksOff c rest then none
    else (singleQuoted? rest).map (.cons (.ofChar c))

/-- The characters that one letter after a backslash stands for. -/
def namedEscapes : List (Char × Nat) :=
  [('0', 0), ('a', 7), ('b', 8), ('t', 9), ('\t', 9), ('n', 10), ('v', 11), ('f', 12), ('r', 13),
    ('e', 27), (' ', 32), ('"', 34), ('/', 47), ('\\', 92), ('N', 0x85), ('_', 0xA0),
    ('L', 0x2028), ('P', 0x2029)]

/-- The number of hexadecimal digits after a letter that announces a code point. -/
def codeLength? : Char → Option Nat
  | 'x' => some 2
  | 'u' => some 4
  | 'U' => some 8
  | _ => none

/-- The character with a code point. -/
def charOf? (n : Nat) : Option Char :=
  if n.isValidChar then some (Char.ofNat n) else none

/-- Where a reader is in a text in double quotes. -/
inductive QuotePlace
  | inText
  | afterBackslash
  /-- So many digits of a code point are still to come after the number read so far. -/
  | inCode (missing value : Nat)

/-- The text after an opening double quote. -/
def doubleQuoted? : QuotePlace → List Char → Option QuotedText
  | _, [] => none
  | .inText, c :: rest =>
    if c == '"' then some ([], rest)
    else if c == '\\' then doubleQuoted? .afterBackslash rest
    else if breaksOff c rest then none
    else (doubleQuoted? .inText rest).map (.cons (.ofChar c))
  | .afterBackslash, c :: rest =>
    if breaksOff c rest then none
    else if isBreak c then (doubleQuoted? .inText rest).map (.cons .joint)
    else
      match namedEscapes.lookup c, codeLength? c with
      | some n, _ => (doubleQuoted? .inText rest).map (.cons (.text (Char.ofNat n)))
      | none, some length => doubleQuoted? (.inCode length 0) rest
      | none, none => none
  | .inCode missing value, c :: rest =>
    match Numeral.hexDigit? c with
    | none => none
    | some d =>
      let value := value * 16 + d
      if missing ≤ 1 then do
        let decoded ← charOf? value
        (doubleQuoted? .inText rest).map (.cons (.text decoded))
      else doubleQuoted? (.inCode (missing - 1) value) rest

/-- The text of the quoted scalar at the start of a list, and what follows it. -/
def quoted? : List Char → Option (String × List Char)
  | '\'' :: rest => (singleQuoted? rest).map fun (pieces, rest) => (fold pieces, rest)
  | '"' :: rest => (doubleQuoted? .inText rest).map fun (pieces, rest) => (fold pieces, rest)
  | _ => none

end Markup
end TypedRoutes
