import TypedRoutes.Json.Writing
import TypedRoutes.RouteMeta

/-!
# Failures of building a request value
-/

namespace TypedRoutes

/-- An input that cannot be converted to the type of its field. -/
structure FieldError where
  /-- The path of the input. -/
  field : String
  /-- The input as it is displayed. -/
  value : String
  /-- The kind of value that was expected. -/
  expected : String
  deriving DecidableEq

/-- The message of a field error. -/
def FieldError.message (e : FieldError) : String :=
  "invalid value `" ++ e.value ++ "` for field `" ++ e.field ++ "`: expected " ++ e.expected

/-- What is wrong with a body. -/
inductive BodyFault
  | malformed
  | notAnObject (found : Json)

/-- The reason for refusing a body.  Malformed text is not diagnosed further. -/
def BodyFault.reason : BodyFault → String
  | .malformed => "<syntax>"
  | .notAnObject found => "expected a JSON object, found " ++ found.kindPhrase

/-- Why no request value could be built. -/
inductive RequestError
  | unsupportedMethod (method : String)
  | notARecord (typeName : String)
  | invalidBody (fault : BodyFault)
  | invalidField (e : FieldError)
  | decoding (reason : String)
  | routeMeta (fault : RouteMeta.Fault)

namespace RequestError

/-- The message of a failure. -/
def message : RequestError → String
  | .unsupportedMethod method => "HTTP method " ++ method ++ " is not supported"
  | .notARecord typeName => typeName ++ " cannot be materialized: not a struct"
  | .invalidBody fault => "invalid JSON body: " ++ fault.reason
  | .invalidField e => e.message
  | .decoding reason => "request decode failed: " ++ reason
  | .routeMeta fault => fault.message

/-- The path of the input that caused a failure, where there is one. -/
def field? : RequestError → Option String
  | .invalidField e => some e.field
  | _ => none

end RequestError
end TypedRoutes
