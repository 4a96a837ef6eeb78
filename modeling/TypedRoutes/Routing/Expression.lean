import TypedRoutes.Routing.Pattern

/-!
# Regular expressions of patterns

A pattern is written as a regular expression that a path has to match from its start to its end: the
characters of a literal stand for themselves, a variable is a group of characters other than a
slash, and a slash at the end may be there or not.  The module gives the expression, the reading of
such expressions, and what they match.

That an expression may be too large to be compiled is left out.
-/

namespace TypedRoutes

/-- A part of a regular expression. -/
inductive ExpressionPart
  | one (c : Char)
  /-- A character that may be there or not. -/
  | optional (c : Char)
  /-- A group of one or more characters other than a slash. -/
  | group
  deriving DecidableEq

namespace Expression

/-- Whether a character has a meaning of its own in regular expressions. -/
def isMeta (c : Char) : Bool :=
  "\\.+*?()|[]\x7b\x7d^$#&-~".toList.contains c

/-- A text whose characters stand for themselves. -/
def escape (text : String) : String :=
  String.ofList (text.toList.flatMap fun c => if isMeta c then ['\\', c] else [c])

/-- How the rest of a regular expression is read, up to the end of the text to be matched. -/
inductive ReadAs : List Char → List ExpressionPart → Prop
  | stop : ReadAs ['$'] []
  | one {c : Char} {rest : List Char} {parts : List ExpressionPart} (hc : isMeta c = false)
      (hrest : ReadAs rest parts) : ReadAs (c :: rest) (.one c :: parts)
  | escaped {c : Char} {rest : List Char} {parts : List ExpressionPart} (hc : isMeta c = true)
      (hrest : ReadAs rest parts) : ReadAs ('\\' :: c :: rest) (.one c :: parts)
  | optional {c : Char} {rest : List Char} {parts : List ExpressionPart} (hc : isMeta c = false)
      (hrest : ReadAs rest parts) : ReadAs (c :: '?' :: rest) (.optional c :: parts)
  | group {rest : List Char} {parts : List ExpressionPart} (hrest : ReadAs rest parts) :
      ReadAs ('(' :: '[' :: '^' :: '/' :: ']' :: '+' :: ')' :: rest) (.group :: parts)

/-- The parts match a text from its start to its end, and the groups take some texts. -/
inductive Takes : List ExpressionPart → List Char → List String → Prop
  | nil : Takes [] [] []
  | one {c : Char} {parts : List ExpressionPart} {rest : List Char} {taken : List String}
      (hrest : Takes parts rest taken) : Takes (.one c :: parts) (c :: rest) taken
  | present {c : Char} {parts : List ExpressionPart} {rest : List Char} {taken : List String}
      (hrest : Takes parts rest taken) : Takes (.optional c :: parts) (c :: rest) taken
  | absent {c : Char} {parts : List ExpressionPart} {rest : List Char} {taken : List String}
      (hrest : Takes parts rest taken) : Takes (.optional c :: parts) rest taken
  | group {text : String} {parts : List ExpressionPart} {rest : List Char} {taken : List String}
      (hne : text ≠ "") (hslash : '/' ∉ text.toList) (hrest : Takes parts rest taken) :
      Takes (.group :: parts) (text.toList ++ rest) (text :: taken)

/-- A regular expression matches a text, and its groups take some texts. -/
def Captures (expression text : String) (taken : List String) : Prop :=
  ∃ rest parts, expression.toList = '^' :: rest ∧ ReadAs rest parts ∧ Takes parts text.toList taken

end Expression

/-- The regular expression of a segment. -/
def Segment.expression : Segment → String
  | .literal text => Expression.escape text
  | .variable _ => "([^/]+)"

/-- The regular expression of a pattern. -/
def Pattern.expression (pattern : Pattern) : String :=
  "^" ++ Path.ofSegments (pattern.segments.map Segment.expression) ++ "/?$"

end TypedRoutes
