import TypedRoutes.Routing.Router

/-!
# The document of an API

Every endpoint of a router is one operation of its document, under the endpoint's path and method.
-/

namespace TypedRoutes

/-- The heading of a document. -/
structure DocumentInfo where
  title : String
  version : String
  description : Option String
  deriving DecidableEq

/-- The heading of a document whose author gave none. -/
def DocumentInfo.default : DocumentInfo :=
  ⟨"metaroute API", "0.1.0-alpha.1", none⟩

/-- The description of an endpoint. -/
structure OperationDoc where
  operationId : String
  summary : Option String
  description : Option String
  tags : List String
  parameters : List Parameter
  requestBody : Option Schema
  /-- The schema of the whole answer. -/
  response : Schema

/-- The description of an API: operations by path and lower-case method. -/
structure ApiDocument where
  info : DocumentInfo
  paths : Members (Members OperationDoc)

/-- A text, unless it is empty. -/
def nonEmpty? (s : String) : Option String :=
  if s.isEmpty then none else some s

/-- Whether the requests of a verb are described by a body. -/
def Verb.hasBody : Verb → Bool
  | post | put | patch => true
  | get | delete => false

/-- The description of an endpoint.  Under the verbs with a body only the path parameters are
listed; the other inputs stand in the body. -/
def Endpoint.operationDoc {H : Type} (types : TypeTable) (endpoint : Endpoint H) :
    OperationDoc where
  operationId := endpoint.name
  summary := nonEmpty? endpoint.routeMeta.summary
  description := nonEmpty? endpoint.routeMeta.description
  tags := endpoint.routeMeta.tagList
  parameters :=
    if endpoint.method.hasBody then endpoint.parameters.filter (·.place == .path)
    else endpoint.parameters
  requestBody := if endpoint.method.hasBody then some (types.schema endpoint.request) else none
  response := Schema.envelope endpoint.responseSchema

namespace ApiDocument

/-- The paths with one more operation. -/
def addEndpoint {H : Type} (types : TypeTable) (paths : Members (Members OperationDoc))
    (endpoint : Endpoint H) : Members (Members OperationDoc) :=
  let item := (paths.find? endpoint.path).getD []
  paths.insert endpoint.path
    (item.insert (Text.lowerAscii endpoint.method.name) (endpoint.operationDoc types))

/-- The document of a router. -/
def generate {H : Type} (types : TypeTable) (router : Router H) (info : DocumentInfo) :
    ApiDocument :=
  ⟨info, router.endpoints.foldl (addEndpoint types) []⟩

/-- The operation on a path under a method name of any case. -/
def operation? (doc : ApiDocument) (path method : String) : Option OperationDoc :=
  (doc.paths.find? path).bind fun item => item.find? (Text.lowerAscii method)

end ApiDocument
end TypedRoutes
