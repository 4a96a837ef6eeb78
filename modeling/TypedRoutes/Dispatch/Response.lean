import TypedRoutes.Dispatch.Envelope
import TypedRoutes.Dispatch.Headers

/-!
# Answers
-/

namespace TypedRoutes

/-- The answer to a call. -/
structure Response where
  status : Nat
  headers : Headers
  body : Json

namespace Response

/-- An answer whose body is announced as JSON. -/
def json (status : Nat) (body : Json) : Response :=
  ⟨status, [("content-type", "application/json")], body⟩

/-- A success with the given data. -/
def success (data : Json) : Response :=
  json ErrorCode.ok.status (Envelope.success data).toJson

/-- A failure of the given class. -/
def failure (c : ErrorCode) (message : String) : Response :=
  json c.status (Envelope.failure c message).toJson

/-- The value of the first header of a name. -/
def header? (response : Response) (name : String) : Option String :=
  response.headers.get? name

/-- Adds or replaces a header. -/
def setHeader (response : Response) (name value : String) : Response :=
  { response with headers := response.headers.set name value }

/-- Adds or replaces headers one after the other. -/
def setHeaders (response : Response) (additions : Headers) : Response :=
  { response with headers := response.headers.setAll additions }

/-- The outcome code, if the body has one. -/
def code? (response : Response) : Option Int :=
  (response.body.member? "code").bind Json.code?

/-- The answer as an object; headers are no part of it. -/
def toJson (response : Response) : Json :=
  .ofPairs [("status", .ofNat response.status), ("body", response.body)]

end Response
end TypedRoutes
