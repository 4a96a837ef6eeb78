import TypedRoutes.Dispatch.Middleware
import TypedRoutes.Json.Complaint
import TypedRoutes.Request.Decode
import TypedRoutes.Validation

/-!
# Dispatching calls

A dispatcher answers every call with an envelope.  It matches the route, lets the middleware run,
builds the request value, has it decoded, validates it, runs the handler, and wraps what the handler
gives.  The first stage that fails decides the outcome class.
-/

namespace TypedRoutes

/-- How a handler ends. -/
inductive Outcome
  /-- Data for the caller, and headers to set on the answer. -/
  | answered (data : Json) (headers : Headers)
  | failed (message : String)
  /-- The handler was aborted; the text of its complaint, where it gave one. -/
  | aborted (complaint : Option String)
  /-- The handler ended well, but what it gave cannot be written as JSON. -/
  | unencodable (complaint : Complaint)

/-- One run of a handler over the state of the application. -/
abbrev Action (σ : Type) := CallContext → RouteMeta → σ → Outcome × σ

/-- A handler decodes a request value, or says why it cannot, and then acts on it. -/
structure Handler (σ : Type) where
  decode : Json → Except Complaint (Action σ)

/-- Why a call did not succeed. -/
inductive CallFailure
  | request (e : RequestError)
  | validation (e : ValidationError)
  | handler (message : String)
  | encoding (reason : String)

namespace CallFailure

/-- The outcome class of a failure. -/
def code : CallFailure → ErrorCode
  | .request (.unsupportedMethod _) => .notSupported
  | .request (.invalidBody _) => .invalidRequest
  | .request (.invalidField _) | .request (.decoding _) => .invalidParameter
  | .request (.notARecord _) | .request (.routeMeta _) => .internal
  | .validation e => if e.isMissing then .missingParameter else .validationFailed
  | .handler _ | .encoding _ => .internal

/-- The message of a failure. -/
def message : CallFailure → String
  | .request e => e.message
  | .validation e => e.message
  | .handler message => message
  | .encoding reason => "response encoding failed: " ++ reason

end CallFailure

/-- The data and headers of a run that ended well, or why it did not. -/
def Outcome.result : Outcome → Except CallFailure (Json × Headers)
  | .answered data headers => .ok (data, headers)
  | .failed message => .error (.handler message)
  | .aborted complaint =>
    .error (.handler ("handler panicked: " ++ complaint.getD "handler panicked"))
  | .unencodable complaint => .error (.encoding complaint.message)

/-- The answer to a run, or to a failure before it. -/
def Response.ofResult : Except CallFailure (Json × Headers) → Response
  | .ok (data, headers) => (success data).setHeaders headers
  | .error failure => .failure failure.code failure.message

/-- A call as it arrives. -/
structure Call where
  method : String
  path : String
  query : Query
  headers : Headers
  body : List UInt8
  requestId : RequestId

/-- The path and the query of a request target, which the first question mark separates. -/
def splitTarget (target : String) : String × String :=
  (Text.splitOnce '?' target).getD (target, "")

/-- A call on a request target. -/
def Call.ofTarget (method target : String) (headers : Headers) (body : List UInt8)
    (requestId : RequestId) : Call :=
  let (path, query) := splitTarget target
  ⟨method, path, Query.parse query, headers, body, requestId⟩

/-- What does not change from call to call. -/
structure Dispatcher (σ : Type) where
  types : TypeTable
  router : Router (Handler σ)
  /-- Accepts or rejects the value of a request type. -/
  validate : Ty → Json → Except ValidationError Unit

/-- What changes from call to call. -/
structure DispatchState (σ : Type) where
  /-- The state of the application. -/
  app : σ
  middlewares : List Middleware
  /-- The position of the next call; after the greatest word positions start over. -/
  nextSeq : UInt64

namespace Dispatcher

variable {σ : Type} (d : Dispatcher σ)

/-- Builds, decodes and validates the request value of a matched call. -/
def prepare (endpoint : Endpoint (Handler σ)) (method : String) (input : CallInput) :
    Except CallFailure (Action σ) := do
  let value ← (d.types.requestValue endpoint.request method input).mapError .request
  let action ← (endpoint.handler.decode value).mapError fun complaint =>
    .request (.decoding complaint.message)
  (d.validate endpoint.request value).mapError .validation
  return action

/-- Answers a matched call. -/
def handle (endpoint : Endpoint (Handler σ)) (context : CallContext) (input : CallInput)
    (app : σ) : Response × σ :=
  match d.prepare endpoint context.method input with
  | .error failure => (.ofResult (.error failure), app)
  | .ok action =>
    let (outcome, app) := action context endpoint.routeMeta app
    (.ofResult outcome.result, app)

/-- Answers a call that no route matched, naming the methods that its path is served under. -/
def unrouted (context : CallContext) : Response :=
  match (d.router.allowedMethods context.path).map Verb.name with
  | [] => .failure .notFound ("no route for " ++ context.method ++ " " ++ context.path)
  | methods =>
    (Response.failure .notSupported
      ("method " ++ context.method ++ " is not allowed on " ++ context.path)).setHeader
        "allow" (", ".intercalate methods)

/-- The context of a call. -/
def contextOf (request : Call) (route : Option (RouteMatch (Handler σ))) (seq : UInt64) :
    CallContext where
  requestId := request.requestId
  seq := seq
  method := request.method
  path := request.path
  handlerName := (route.map fun r => r.endpoint.name).getD ""
  pathParams := (route.map fun r => r.pathParams).getD []
  headers := request.headers

/-- Answers one call. -/
def dispatch (request : Call) (s : DispatchState σ) : Response × DispatchState σ :=
  let route := d.router.route request.method request.path
  let context := contextOf request route s.nextSeq
  let (middlewares, early) := Middleware.beforeAll context s.middlewares
  let (response, app) := match early, route with
    | some response, _ => (response, s.app)
    | none, none => (d.unrouted context, s.app)
    | none, some r =>
      d.handle r.endpoint context ⟨request.query, request.body, r.pathParams⟩ s.app
  let response := response.setHeader "x-request-id" context.requestId.text
  let (middlewares, response) := Middleware.afterAll context middlewares response
  (response, ⟨app, middlewares, s.nextSeq + 1⟩)

end Dispatcher
end TypedRoutes
