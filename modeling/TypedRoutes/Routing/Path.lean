import TypedRoutes.Text.Blank

/-!
# Path patterns

A path pattern is a sequence of segments between slashes.  A segment in braces is a variable, any
other segment stands for itself.
-/

namespace TypedRoutes
namespace Path

/-- The segments of a path, empty ones included. -/
def rawSegments (path : String) : List String :=
  Text.split '/' path

/-- The segments of a path that are not empty. -/
def segments (path : String) : List String :=
  (rawSegments path).filter fun s => !s.isEmpty

/-- Segments with a slash before each; the root for none. -/
def ofSegments (segments : List String) : String :=
  if segments.isEmpty then "/" else String.join (segments.map ("/" ++ ·))

/-- A prefix and a path joined with single slashes. -/
def join (start path : String) : String :=
  ofSegments (segments start ++ segments path)

/-- The name of a segment that is a variable. -/
def variableName? (segment : String) : Option String := do
  let rest ← Text.dropStart? ['\x7b'] segment.toList
  let name ← Text.dropEnd? ['\x7d'] rest
  some (String.ofList name)

/-- The names of the variables of a path, in order. -/
def variableNames (path : String) : List String :=
  (rawSegments path).filterMap variableName?

/-- The segments of a path with every variable name forgotten. -/
def routeShape (path : String) : List (Option String) :=
  (rawSegments path).map fun s => if (variableName? s).isSome then none else some s

/-- Whether two paths differ only in the names of variables. -/
def sameRoute (a b : String) : Bool :=
  routeShape a == routeShape b

end Path
end TypedRoutes
