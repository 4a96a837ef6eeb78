import TypedRoutes.Markup.Character

/-!
# Block scalars

A block scalar consists of the indented lines below a bar or a greater-than sign.  After a bar its
lines are kept; after a greater-than sign they are folded, except around lines that are indented
further.  What becomes of the line breaks at its end is said in its header.
-/

namespace TypedRoutes
namespace Markup

/-- What becomes of the line breaks at the end of a block scalar. -/
inductive Chomping
  | strip
  /-- The first one is kept. -/
  | clip
  | keep
  deriving DecidableEq

/-- What is said in the first line of a block scalar. -/
structure BlockHeader where
  chomping : Chomping
  /-- The indentation of the lines, where it is given. -/
  increment : Option Nat

/-- The chomping that a character asks for. -/
def chomping? : Char → Option Chomping
  | '+' => some .keep
  | '-' => some .strip
  | _ => none

/-- The increment that a character asks for. -/
def increment? (c : Char) : Option Nat :=
  if '1' ≤ c ∧ c ≤ '9' then some (c.toNat - '0'.toNat) else none

/-- The indicators of a header: at most one of each kind, in either order. -/
def blockHeader : List Char → BlockHeader × List Char
  | [] => (⟨.clip, none⟩, [])
  | c :: rest =>
    match chomping? c, increment? c with
    | some chomping, _ =>
      match rest.head?.bind increment? with
      | some n => (⟨chomping, some n⟩, rest.drop 1)
      | none => (⟨chomping, none⟩, rest)
    | none, some n =>
      match rest.head?.bind chomping? with
      | some chomping => (⟨chomping, some n⟩, rest.drop 1)
      | none => (⟨.clip, some n⟩, rest)
    | none, none => (⟨.clip, none⟩, c :: rest)

/-- The greatest column that spaces reach before the first line with text.  A tab cannot be part of
the indentation. -/
def widestMargin? (column widest : Nat) : List Char → Option Nat
  | [] => some (max column widest)
  | c :: rest =>
    if c == ' ' then widestMargin? (column + 1) widest rest
    else if c == '\t' then none
    else if isBreak c then widestMargin? 0 (max column widest) rest
    else some (max column widest)

/-- The indentation of the lines of a body: as far from the column of the mapping as the header
says, or else as wide as the margin, and more than that column. -/
def blockIndent? (parent increment : Option Nat) (body : List Char) : Option Nat :=
  match increment with
  | some n => some (parent.getD 0 + n)
  | none =>
    (widestMargin? 0 0 body).map fun widest => max widest (max 1 ((parent.map (· + 1)).getD 0))

/-- A line without its indentation, and its line break. -/
abbrev BlockLine := List Char × Option Char

/-- The lines of a block scalar, and what follows them. -/
abbrev BlockLines := List BlockLine × List Char

/-- Lines, the first of which has one more character in front. -/
def BlockLines.cons (c : Char) (lines : BlockLines) : BlockLines :=
  match lines with
  | ((text, ending) :: others, rest) => ((c :: text, ending) :: others, rest)
  | ([], rest) => ([([c], none)], rest)

/-- The lines that are indented by `indent`, from a column of the margin or, where none is given,
from within the text of a line. -/
def blockLines? (indent : Nat) : Option Nat → List Char → Option BlockLines
  | _, [] => some ([], [])
  | margin, c :: rest =>
    let endLine := (blockLines? indent (some 0) rest).map fun (lines, rest) =>
      (([], some c) :: lines, rest)
    if isBreak c then endLine
    else
      match margin with
      | none => (blockLines? indent none rest).map (.cons c)
      | some column =>
        if column < indent then
          if c == ' ' then blockLines? indent (some (column + 1)) rest
          else if c == '\t' then none
          else some ([], c :: rest)
        else (blockLines? indent none rest).map (.cons c)

/-- The text of lines that follow a line break `last` and further empty lines `others`.
`indented` tells whether the line before was indented further. -/
def joinBlock (folded : Bool) (chomping : Chomping) :
    (last : Option Char) → (others : List Char) → (indented : Bool) → List BlockLine → List Char
  | last, others, _, [] =>
    (if chomping = .strip then [] else last.toList) ++ (if chomping = .keep then others else [])
  | last, others, indented, ([], ending) :: rest =>
    joinBlock folded chomping last (others ++ ending.toList) indented rest
  | last, others, indented, (c :: text, ending) :: rest =>
    let first :=
      if folded && last == some '\n' && !indented && !isBlank c then
        if others.isEmpty then [' '] else []
      else last.toList
    first ++ others ++ c :: text ++ joinBlock folded chomping ending [] (isBlank c) rest

/-- The text of the block scalar after its bar or greater-than sign, and what follows it.  `parent`
is the column of the mapping that it stands in. -/
def blockScalar? (folded : Bool) (parent : Option Nat) (cs : List Char) :
    Option (String × List Char) := do
  let (header, rest) := blockHeader cs
  let body ← restOfLine? rest
  let indent ← blockIndent? parent header.increment body
  let (lines, rest) ← blockLines? indent (some 0) body
  return (String.ofList (joinBlock folded header.chomping none [] false lines), rest)

end Markup
end TypedRoutes
