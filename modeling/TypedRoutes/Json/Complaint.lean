import TypedRoutes.Text.Numeral

/-!
# Complaints about JSON

What cannot be read or written as JSON is complained about in a text.  A text that ends in the words
"at line … column …" points to a place.  The place is kept apart from the text, so that a message
gives it once and in plain numbers; lines are counted from one, and line zero is no place.
-/

namespace TypedRoutes

/-- A text, and the line and the column that it points to. -/
structure Complaint where
  text : String
  place : Option (Nat × Nat)
  deriving DecidableEq

namespace Complaint

/-- What precedes and what follows the last occurrence of a mark. -/
def splitLast? (mark : List Char) : List Char → Option (List Char × List Char)
  | [] => none
  | c :: rest =>
    match splitLast? mark rest with
    | some (before, after) => some (c :: before, after)
    | none => (Text.dropStart? mark (c :: rest)).map fun after => ([], after)

/-- The word before a line number. -/
def lineMark : String := " at line "

/-- The word before a column number. -/
def columnMark : String := " column "

/-- A line number and a column number below `2 ^ 64`, and nothing else. -/
def place? (cs : List Char) : Option (Nat × Nat) := do
  let column ← Text.dropStart? columnMark.toList (cs.dropWhile Char.isDigit)
  if !column.all Char.isDigit then none
  else return (← Numeral.word? (cs.takeWhile Char.isDigit), ← Numeral.word? column)

/-- The complaint with a text, of which an end that names a place is taken off. -/
def ofText (s : String) : Complaint :=
  match splitLast? lineMark.toList s.toList with
  | none => ⟨s, none⟩
  | some (before, after) =>
    match place? after with
    | none => ⟨s, none⟩
    | some (line, column) =>
      ⟨String.ofList before, if line = 0 then none else some (line, column)⟩

/-- The text of a complaint followed by its place. -/
def message (c : Complaint) : String :=
  match c.place with
  | none => c.text
  | some (line, column) => c.text ++ lineMark ++ toString line ++ columnMark ++ toString column

end Complaint
end TypedRoutes
