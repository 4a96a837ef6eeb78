import TypedRoutes.Http.Request
import TypedRoutes.Http.Response

/-!
# The HTTP service

The service answers `GET /health` and the path of the document itself and dispatches every other
request.
-/

namespace TypedRoutes

/-- What does not change from request to request. -/
structure HttpService (σ : Type) where
  dispatcher : Dispatcher σ
  /-- The document of the API. -/
  document : Json
  /-- The path under which the document is served. -/
  docsPath : String
  maxBodyBytes : Nat

/-- What changes from request to request. -/
structure HttpState (σ : Type) where
  dispatch : DispatchState σ
  lines : HeaderLines

namespace HttpService

variable {σ : Type} (service : HttpService σ)

/-- The answer of the service itself, if the request is not for the dispatcher. -/
def ownAnswer? (request : WireRequest) : Option WireResponse :=
  if request.method = "GET" then
    let path := (splitTarget request.target).1
    if path = "/health" then some (.json 200 (.ofPairs [("status", .string "ok")]))
    else if path = service.docsPath then some (.json 200 service.document)
    else none
  else
    none

/-- Answers one request. -/
def answer (request : WireRequest) (fresh : RequestId) (s : HttpState σ) :
    WireResponse × HttpState σ :=
  match service.ownAnswer? request with
  | some response => (response, s)
  | none =>
    match (request.received service.maxBodyBytes).toCall service.maxBodyBytes fresh with
    | .error fault =>
      (.json fault.status (Envelope.failure fault.code fault.message).toJson, s)
    | .ok call =>
      let (response, dispatch) := service.dispatcher.dispatch call s.dispatch
      let (written, lines) := WireResponse.ofResponse response s.lines
      (written, ⟨dispatch, lines⟩)

end HttpService
end TypedRoutes
