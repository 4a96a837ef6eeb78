import TypedRoutes.Request.Assemble
import TypedRoutes.OpenApi.Parameter
import TypedRoutes.Routing.Path

/-!
# Registration of controllers

A controller is a named group of operations under a common path.  Registering it adds one endpoint
for each operation whose request type declares a route.  The endpoints of a registry have distinct
names, and no two of one method differ only in the names of path variables.  A controller with a
faulty operation is refused as a whole.
-/

namespace TypedRoutes

/-- The name of a verb. -/
def Verb.name : Verb → String
  | get => "GET"
  | post => "POST"
  | put => "PUT"
  | patch => "PATCH"
  | delete => "DELETE"

/-- An operation of a controller, with a handler of any kind. -/
structure Operation (H : Type) where
  name : String
  request : Ty
  response : Ty
  handler : H

/-- A named group of operations. -/
structure Controller (H : Type) where
  name : String
  operations : List (Operation H)

/-- A registered operation. -/
structure Endpoint (H : Type) where
  controller : String
  operation : String
  method : Verb
  /-- The full path pattern. -/
  path : String
  /-- The names of the variables of the path, in order. -/
  pathVars : List String
  routeMeta : RouteMeta
  request : Ty
  response : Ty
  parameters : List Parameter
  responseSchema : Schema
  handler : H

/-- The name of a handler. -/
def handlerName (controller operation : String) : String :=
  controller ++ "." ++ operation

/-- The name of an endpoint's handler. -/
def Endpoint.name {H : Type} (endpoint : Endpoint H) : String :=
  handlerName endpoint.controller endpoint.operation

/-- Why a controller is refused, or no router can be built. -/
inductive RegistrationError
  | missingPath (controller : String)
  | routeMeta (handler : String) (fault : RouteMeta.Fault)
  | unsupportedMethod (handler method : String)
  | duplicateHandler (handler : String)
  | duplicateRoute (method : Verb) (path existing handler : String)
  | invalidPath (path : String)
  deriving DecidableEq

namespace RegistrationError

/-- The message of a registration error. -/
def message : RegistrationError → String
  | .missingPath controller => "controller " ++ controller ++ " registered without a path prefix"
  | .routeMeta handler fault => "invalid route metadata for " ++ handler ++ ": " ++ fault.message
  | .unsupportedMethod handler method =>
    handler ++ " declares unsupported HTTP method `" ++ method ++ "`"
  | .duplicateHandler handler => "handler " ++ handler ++ " is registered twice"
  | .duplicateRoute method path existing handler =>
    method.name ++ " " ++ path ++ " of " ++ handler ++ " is already served by " ++ existing
  | .invalidPath path => "invalid path pattern `" ++ path ++ "`: empty path variable"

/-- The fault in the metadata of a request type behind an error. -/
def fault? : RegistrationError → Option RouteMeta.Fault
  | .routeMeta _ fault => some fault
  | _ => none

end RegistrationError

/-- A controller that was registered, with the endpoints of its operations. -/
structure RegisteredController (H : Type) where
  name : String
  endpoints : List (Endpoint H)

/-- The controllers in order of registration. -/
structure Registry (H : Type) where
  controllers : List (RegisteredController H)

namespace Registry

variable {H : Type}

/-- The registry without controllers. -/
def empty : Registry H := ⟨[]⟩

/-- The registered endpoints in order of registration. -/
def endpoints (registry : Registry H) : List (Endpoint H) :=
  registry.controllers.flatMap RegisteredController.endpoints

/-- The endpoints of a controller with that of one more of its operations under a path, where those
of earlier controllers are `earlier`; operations whose request type declares no route are left
out. -/
def addOperation (types : TypeTable) (start controller : String)
    (earlier endpoints : List (Endpoint H)) (op : Operation H) :
    Except RegistrationError (List (Endpoint H)) :=
  let name := handlerName controller op.name
  if types.hasMarker op.request then
    match types.routeMeta op.request with
    | .error fault => .error (.routeMeta name fault)
    | .ok info =>
      match Verb.ofName? info.method with
      | none => .error (.unsupportedMethod name info.method)
      | some method =>
        let path := Path.join start info.path
        let pathVars := Path.variableNames path
        let known := earlier ++ endpoints
        if known.any (·.name == name) then .error (.duplicateHandler name)
        else
          match known.find? fun e => e.method == method && Path.sameRoute e.path path with
          | some existing => .error (.duplicateRoute method path existing.name name)
          | none =>
            .ok (endpoints ++ [{
              controller := controller
              operation := op.name
              method := method
              path := path
              pathVars := pathVars
              routeMeta := info
              request := op.request
              response := op.response
              parameters := types.parameters op.request pathVars
              responseSchema := types.schema op.response
              handler := op.handler }])
  else
    .ok endpoints

/-- Registers a controller under a path. -/
def register (types : TypeTable) (registry : Registry H) (start : String)
    (controller : Controller H) : Except RegistrationError (Registry H) :=
  if Text.isBlankText start then .error (.missingPath controller.name)
  else
    (controller.operations.foldlM
        (addOperation types start controller.name registry.endpoints) []).map fun endpoints =>
      ⟨registry.controllers ++ [⟨controller.name, endpoints⟩]⟩

end Registry
end TypedRoutes
