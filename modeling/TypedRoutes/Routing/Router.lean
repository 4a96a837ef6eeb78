import TypedRoutes.Routing.Pattern
import TypedRoutes.Routing.Registry

/-!
# Routers

A router is built once from a registry.  It tries routes with fewer variables first, and among
those with equally many the one that was registered first.
-/

namespace TypedRoutes

/-- A path pattern and the endpoint that it leads to. -/
structure Route (H : Type) where
  pattern : Pattern
  endpoint : Endpoint H

/-- The number of variables of a route. -/
def Route.rank {H : Type} (route : Route H) : Nat :=
  route.pattern.variableNames.length

/-- An immutable set of routes. -/
structure Router (H : Type) where
  /-- The controllers in order of registration. -/
  controllers : List (RegisteredController H)
  /-- The routes in the order in which they are tried. -/
  routes : List (Route H)

/-- An endpoint with the texts bound to its path variables. -/
structure RouteMatch (H : Type) where
  endpoint : Endpoint H
  pathParams : List (String × String)

/-- The last value bound to a name. -/
def lastParam? (params : List (String × String)) (name : String) : Option String :=
  params.reverse.lookup name

namespace Router

variable {H : Type}

/-- Routes with one more, after all those that have no more variables. -/
def place (route : Route H) : List (Route H) → List (Route H)
  | [] => [route]
  | head :: rest =>
    if head.rank ≤ route.rank then head :: place route rest else route :: head :: rest

/-- The route of an endpoint; its path must not have a variable without a name. -/
def routeOf (endpoint : Endpoint H) : Except RegistrationError (Route H) :=
  match Pattern.ofPath? endpoint.path with
  | some pattern => .ok ⟨pattern, endpoint⟩
  | none => .error (.invalidPath endpoint.path)

/-- The router of a registry. -/
def build (registry : Registry H) : Except RegistrationError (Router H) :=
  (registry.endpoints.mapM routeOf).map fun routes =>
    ⟨registry.controllers, routes.foldl (fun placed route => place route placed) []⟩

/-- The endpoints in order of registration. -/
def endpoints (router : Router H) : List (Endpoint H) :=
  router.controllers.flatMap RegisteredController.endpoints

/-- The endpoint that serves a method on a path. -/
def route (router : Router H) (method path : String) : Option (RouteMatch H) :=
  (router.routes.filter fun r => r.endpoint.method.name == method).findSome? fun r =>
    (r.pattern.match? path).map fun texts =>
      ⟨r.endpoint, r.pattern.variableNames.zip (texts.map Pattern.decodeSegment)⟩

/-- Whether some method is served on a path. -/
def hasPath (router : Router H) (path : String) : Bool :=
  router.routes.any (·.pattern.isMatch path)

/-- The methods that are served on a path, each once, in the order in which routes are tried. -/
def allowedMethods (router : Router H) (path : String) : List Verb :=
  (router.routes.filter (·.pattern.isMatch path)).foldl
    (fun methods r =>
      if methods.contains r.endpoint.method then methods else methods ++ [r.endpoint.method]) []

/-- The endpoint with a handler name. -/
def endpoint? (router : Router H) (name : String) : Option (Endpoint H) :=
  router.endpoints.find? (·.name == name)

/-- The controller with a name; of several the last that was registered. -/
def controller? (router : Router H) (name : String) : Option (RegisteredController H) :=
  router.controllers.reverse.find? (·.name == name)

end Router

/-- A cell that is filled once, by the first construction that succeeds. -/
structure WriteOnce (α : Type) where
  value? : Option α

namespace WriteOnce

variable {ε α : Type}

/-- The cell that is not filled yet. -/
def empty : WriteOnce α := ⟨none⟩

/-- The content of the cell, constructed now if there is none; the cell afterwards, and whether the
construction was run. -/
def getOrFill (cell : WriteOnce α) (init : Unit → Except ε α) :
    Except ε α × WriteOnce α × Bool :=
  match cell.value? with
  | some value => (.ok value, cell, false)
  | none =>
    match init () with
    | .ok value => (.ok value, ⟨some value⟩, true)
    | .error e => (.error e, cell, true)

end WriteOnce
end TypedRoutes
