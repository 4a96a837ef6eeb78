import TypedRoutes.Routing.Path
import TypedRoutes.Text.Percent

/-!
# Matching request paths

A pattern matches a path segment by segment: a literal matches itself byte for byte, a variable any
text that is not empty.  One trailing slash on the path is tolerated.
-/

namespace TypedRoutes

/-- A segment of a path pattern. -/
inductive Segment
  | literal (text : String)
  | variable (name : String)
  deriving DecidableEq

/-- A path pattern; the root has no segments. -/
structure Pattern where
  segments : List Segment
  deriving DecidableEq

namespace Pattern

/-- The pattern segment of a path segment; a variable needs a name. -/
def segment? (text : String) : Option Segment :=
  match Path.variableName? text with
  | some name => if name.isEmpty then none else some (.variable name)
  | none => some (.literal text)

/-- The pattern of a path. -/
def ofPath? (path : String) : Option Pattern :=
  ((Path.segments path).mapM segment?).map Pattern.mk

/-- The names of the variables, in order. -/
def variableNames (pattern : Pattern) : List String :=
  pattern.segments.filterMap fun
    | .variable name => some name
    | .literal _ => none

/-- The texts of the variables, if the segments match those of a path. -/
def matchSegments : List Segment → List String → Option (List String)
  | [], [] => some []
  | [], [text] => if text.isEmpty then some [] else none
  | .literal s :: rest, text :: texts => if text = s then matchSegments rest texts else none
  | .variable _ :: rest, text :: texts =>
    if text.isEmpty then none else (matchSegments rest texts).map (text :: ·)
  | _, _ => none

/-- The texts of the variables in a path that the pattern matches. -/
def match? (pattern : Pattern) (path : String) : Option (List String) :=
  match Path.rawSegments path with
  | "" :: text :: texts =>
    match pattern.segments with
    | [] => if text = "" then matchSegments [] texts else none
    | segments => matchSegments segments (text :: texts)
  | _ => none

/-- Whether the pattern matches a path. -/
def isMatch (pattern : Pattern) (path : String) : Bool :=
  (pattern.match? path).isSome

/-- The text that a path segment stands for; one that does not decode to UTF-8 stands for itself. -/
def decodeSegment (raw : String) : String :=
  (Text.ofBytes? (Text.percentDecode (Text.bytes raw))).getD raw

end Pattern
end TypedRoutes
